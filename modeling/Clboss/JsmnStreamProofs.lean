import Clboss.JsmnRunProofs

/-! # `ParserExposedBuffer` — what depends on the pieces, and what does not

    `scan` reads the same stream byte by byte and knows nothing of pieces: it
    feeds the `DatumIdentifier`, and at the end of every datum it runs `jsmn` on
    the bytes since the last one.  A call of `parse_buffer` does what `scan`
    does on the piece just loaded (`parseBuffer_agrees`), EXCEPT where `jsmn`
    and the `DatumIdentifier` disagree about the end of a datum: then it gives
    up silently if nothing else is loaded, and trips an assertion if something
    is.  And where `jsmn` rejects a datum, the exception takes the values that
    the same call has parsed before with it. -/

namespace Jsmn

/-! ## Reading byte by byte -/

/-- The state between two bytes. -/
structure Scan where
  datumEnder : DatumIdentifier
  pending    : List UInt8

def Scan.init : Scan := ⟨.init, []⟩

/-- How far the stream could be read. -/
inductive Verdict where
  /-- to its end -/
  | running (m : Scan)
  /-- up to a datum that `jsmn` rejects -/
  | rejected (text : List UInt8) (pos : Nat)
  /-- up to an end of a datum that is none for `jsmn`, before `rest` -/
  | stuck (rest : List UInt8)

/-- The values of the stream, and how far it could be read. -/
def scan (m : Scan) : List UInt8 → List ParseResult × Verdict
  | []      => ([], .running m)
  | c :: cs =>
      let text := m.pending ++ [c]
      if (m.datumEnder.feed c).2 then
        match Parser.init.run text with
        | (.count (_ + 1), p) =>
            let r := scan ⟨(m.datumEnder.feed c).1, text.drop p.pos⟩ cs
            (⟨text.take p.pos, p.tokens⟩ :: r.1, r.2)
        | (.inval, p) => ([], .rejected text p.pos)
        | _           => ([], .stuck cs)
      else scan ⟨(m.datumEnder.feed c).1, text⟩ cs

/-- What comes of a datum whose last byte is followed by `rest`. -/
def scanDatum (d : DatumIdentifier) (text rest : List UInt8) : List ParseResult × Verdict :=
  match Parser.init.run text with
  | (.count (_ + 1), p) =>
      let r := scan ⟨d, text.drop p.pos⟩ rest
      (⟨text.take p.pos, p.tokens⟩ :: r.1, r.2)
  | (.inval, p) => ([], .rejected text p.pos)
  | _           => ([], .stuck rest)

/-- No datum ends in `cs`. -/
theorem scan_of_feedUntil_none {d d' : DatumIdentifier} {cs : List UInt8}
    (h : feedUntil d cs = (d', none)) (pending : List UInt8) :
    scan ⟨d, pending⟩ cs = ([], .running ⟨d', pending ++ cs⟩) := by
  induction cs generalizing d pending with
  | nil =>
      cases h
      rw [List.append_nil]
      rfl
  | cons c cs ih =>
      unfold feedUntil at h
      split at h
      · exact nomatch h
      · rename_i hf
        obtain ⟨hd, hn⟩ := Prod.mk.inj h
        have htail : feedUntil (d.feed c).1 cs = (d', none) :=
          Prod.ext hd (Option.map_eq_none_iff.mp hn)
        unfold scan
        simp only [hf]
        rw [if_neg (by simp), ih htail, List.append_assoc]
        rfl

/-- A datum ends with the first `n` bytes of `cs`. -/
theorem scan_of_feedUntil_some {d d' : DatumIdentifier} {cs : List UInt8} {n : Nat}
    (h : feedUntil d cs = (d', some n)) (pending : List UInt8) :
    0 < n ∧ n ≤ cs.length
      ∧ scan ⟨d, pending⟩ cs = scanDatum d' (pending ++ cs.take n) (cs.drop n) := by
  induction cs generalizing d pending n with
  | nil => exact nomatch h
  | cons c cs ih =>
      unfold feedUntil at h
      split at h
      · rename_i hf
        obtain ⟨rfl, hn⟩ := Prod.mk.inj h
        cases hn
        refine ⟨Nat.one_pos, Nat.succ_le_succ (Nat.zero_le _), ?_⟩
        unfold scan scanDatum
        simp only [hf, if_true]
        rfl
      · rename_i hf
        obtain ⟨hd, hn⟩ := Prod.mk.inj h
        obtain ⟨k, hk, rfl⟩ := Option.map_eq_some_iff.mp hn
        have htail : feedUntil (d.feed c).1 cs = (d', some k) := Prod.ext hd hk
        obtain ⟨hpos, hle, heq⟩ := ih htail (pending ++ [c])
        refine ⟨Nat.succ_pos _, Nat.succ_le_succ hle, ?_⟩
        unfold scan
        simp only [hf]
        rw [if_neg (by simp), heq, List.append_assoc]
        rfl

theorem scan_cons (m : Scan) (c : UInt8) (cs : List UInt8) :
    scan m (c :: cs) = if (m.datumEnder.feed c).2
      then scanDatum (m.datumEnder.feed c).1 (m.pending ++ [c]) cs
      else scan ⟨(m.datumEnder.feed c).1, m.pending ++ [c]⟩ cs := rfl

/-- Go on with `bs` after what was read so far. -/
def resume (r : List ParseResult × Verdict) (bs : List UInt8) : List ParseResult × Verdict :=
  match r.2 with
  | .running m         => (r.1 ++ (scan m bs).1, (scan m bs).2)
  | .rejected text pos => (r.1, .rejected text pos)
  | .stuck rest        => (r.1, .stuck (rest ++ bs))

theorem resume_cons (r : List ParseResult × Verdict) (v : ParseResult) (bs : List UInt8) :
    resume (v :: r.1, r.2) bs = (v :: (resume r bs).1, (resume r bs).2) := by
  obtain ⟨vs, verdict⟩ := r
  cases verdict <;> rfl

/-- Reading goes on where it stopped. -/
theorem scan_append (m : Scan) (as bs : List UInt8) :
    scan m (as ++ bs) = resume (scan m as) bs := by
  induction as generalizing m with
  | nil => rfl
  | cons c as ih =>
      rw [List.cons_append, scan_cons, scan_cons]
      split
      · unfold scanDatum
        split
        · rw [resume_cons, ih]
        · rfl
        · rfl
      · exact ih _

/-! ## The buffer -/

/-- The parser is between two data: `jsmn` is fresh, `m` has been read and
    `rest` is loaded but not looked at. -/
structure Impl.At (s : Impl) (m : Scan) (rest : List UInt8) : Prop where
  base   : s.base = .init
  ender  : s.datumEnder = m.datumEnder
  loaded : s.buffer.drop s.startIdx = m.pending ++ rest
  endIdx : s.endIdx = s.startIdx + m.pending.length
  start  : s.startIdx ≤ s.buffer.length

theorem Impl.At.init : Impl.init.At .init [] := ⟨rfl, rfl, rfl, rfl, Nat.le_refl _⟩

theorem Impl.At.length {s : Impl} {m : Scan} {rest : List UInt8} (h : s.At m rest) :
    s.buffer.length = s.endIdx + rest.length := by
  have := congrArg List.length h.loaded
  rw [List.length_drop, List.length_append] at this
  have := h.endIdx
  have := h.start
  omega

theorem Impl.At.region {s : Impl} {m : Scan} {rest : List UInt8} (h : s.At m rest) :
    s.region = m.pending := by
  unfold Impl.region
  rw [h.loaded, h.endIdx, Nat.add_sub_cancel_left, List.take_left']
  rfl

theorem Impl.At.unread {s : Impl} {m : Scan} {rest : List UInt8} (h : s.At m rest) :
    s.buffer.drop s.endIdx = rest := by
  rw [h.endIdx, ← List.drop_drop, h.loaded, List.drop_left']
  rfl

theorem Impl.At.load {s : Impl} {m : Scan} (h : s.At m []) (piece : List UInt8) :
    (s.loadBuffer piece).At m piece := by
  refine ⟨h.base, h.ender, ?_, h.endIdx, ?_⟩
  · have := h.loaded
    rw [List.append_nil] at this
    show (s.buffer ++ piece).drop s.startIdx = _
    rw [List.drop_append_of_le_length h.start, this]
  · show s.startIdx ≤ (s.buffer ++ piece).length
    rw [List.length_append]
    have := h.start
    omega

theorem Impl.At.move {s : Impl} {m : Scan} (h : s.At m []) : s.moveLoaded.At m [] := by
  unfold Impl.moveLoaded
  split
  · exact h
  · refine ⟨h.base, h.ender, h.loaded, ?_, Nat.zero_le _⟩
    show s.endIdx - s.startIdx = 0 + m.pending.length
    rw [h.endIdx]
    omega

/-- The `DatumIdentifier` was fed the first `n` unread bytes. -/
theorem Impl.At.advance {s : Impl} {m : Scan} {rest : List UInt8} (h : s.At m rest)
    (d : DatumIdentifier) {n : Nat} (hn : n ≤ rest.length) :
    { s with datumEnder := d, endIdx := s.endIdx + n }.At ⟨d, m.pending ++ rest.take n⟩
      (rest.drop n) := by
  refine ⟨h.base, rfl, ?_, ?_, h.start⟩
  · show s.buffer.drop s.startIdx = _
    rw [h.loaded, List.append_assoc, List.take_append_drop]
  · show s.endIdx + n = _
    rw [h.endIdx, List.length_append, List.length_take, Nat.min_eq_left hn, Nat.add_assoc]

/-- `jsmn` has read the first `n` bytes of the datum. -/
theorem Impl.At.consume {s : Impl} {m : Scan} {rest : List UInt8} (h : s.At m rest) {num n : Nat}
    (hn : n ≤ m.pending.length) :
    Impl.At ⟨s.buffer, s.startIdx + n, s.endIdx, .init, num, s.datumEnder⟩
      ⟨m.datumEnder, m.pending.drop n⟩ rest := by
  refine ⟨rfl, h.ender, ?_, ?_, ?_⟩
  · show s.buffer.drop (s.startIdx + n) = _
    rw [← List.drop_drop, h.loaded, List.drop_append_of_le_length hn]
  · show s.endIdx = s.startIdx + n + (m.pending.drop n).length
    rw [h.endIdx, List.length_drop]
    omega
  · show s.startIdx + n ≤ s.buffer.length
    have := h.length
    have := h.endIdx
    omega

/-- What `parse_region` makes of the datum read so far. -/
theorem parseRegion_spec {s : Impl} {m : Scan} {rest : List UInt8} (h : s.At m rest)
    (hne : m.pending ≠ []) :
    match Parser.init.run m.pending with
    | (.count (_ + 1), p) => s.parseRegion.1 = .object ⟨m.pending.take p.pos, p.tokens⟩
        ∧ s.parseRegion.2.At ⟨m.datumEnder, m.pending.drop p.pos⟩ rest
    | (.inval, p) => s.parseRegion.1 = .parseError m.pending p.pos
    | (.count 0, p) => s.parseRegion.1 = (if rest = [] then .nothing else .assertFailed)
        ∧ s.parseRegion.2.At ⟨m.datumEnder, m.pending.drop p.pos⟩ rest
    | _ => s.parseRegion.1 = (if rest = [] then .nothing else .assertFailed)
        ∧ s.parseRegion.2.endIdx = s.endIdx ∧ s.parseRegion.2.buffer = s.buffer := by
  have hreg := h.region
  have hlen := h.length
  have hidx : ¬s.startIdx = s.endIdx := by
    have := List.length_pos_iff.mpr hne
    have := h.endIdx
    omega
  have hload : (s.endIdx = s.buffer.length) ↔ rest = [] := by
    rw [hlen, ← List.length_eq_zero_iff]
    omega
  obtain ⟨num, htok⟩ := @tokenize_eq s (s.region.length + 1)
    (by rw [h.base]; exact Parser.within_init _) (Nat.le_add_right _ _)
  rw [h.base, hreg] at htok
  unfold Impl.parseRegion
  rw [if_neg hidx, hreg, htok]
  generalize hrun : Parser.init.run m.pending = r
  obtain ⟨st, p⟩ := r
  cases st with
  | count n =>
      have hpos := (run_stops (Parser.within_init _) hrun).1.pos_le
      cases n with
      | zero =>
          simp only
          by_cases hr : rest = []
          · rw [if_pos (hload.mpr hr), if_pos hr]
            exact ⟨rfl, h.consume hpos⟩
          · rw [if_neg (fun hl => hr (hload.mp hl)), if_neg hr]
            exact ⟨rfl, h.consume hpos⟩
      | succ n =>
          have hreg' : Impl.region { s with base := p, numTokens := num } = m.pending := hreg
          simp only [hreg', true_and]
          exact h.consume hpos
  | inval =>
      have hreg' : Impl.region { s with base := p, numTokens := num } = m.pending := hreg
      simp only [hreg']
  | part =>
      simp only
      by_cases hr : rest = []
      · rw [if_pos (hload.mpr hr), if_pos hr]
        exact ⟨rfl, rfl, rfl⟩
      · rw [if_neg (fun hl => hr (hload.mp hl)), if_neg hr]
        exact ⟨rfl, rfl, rfl⟩
  | nomem =>
      have := run_ne_nomem (Parser.within_init m.pending)
      rw [hrun] at this
      exact absurd rfl this

/-! ## A call of `parse_buffer` -/

/-- Text that starts with a NUL, or does not start, says nothing to `jsmn`. -/
theorem run_dead {js : List UInt8} (h : ∀ c, js[0]? = some c → c = 0) :
    Parser.init.run js = (.count 0, .init) := run_end h

/-- A call did what reading byte by byte does, or showed where it does not. -/
def Agrees (ret : List ParseResult) (r : List ParseResult × Verdict) (out : Parsed × Impl) :
    Prop :=
  match r.2 with
  | .running m         => out.1 = .objects (ret ++ r.1) ∧ out.2.At m []
  | .rejected text pos => out.1 = .parseError text pos
  | .stuck rest        => out.1 = (if rest = [] then .objects (ret ++ r.1) else .assertFailed)
      ∧ (rest = [] → out.2.canParseBuffer = false)

theorem agrees_cons {ret : List ParseResult} {v : ParseResult} {r : List ParseResult × Verdict}
    {out : Parsed × Impl} (h : Agrees (ret ++ [v]) r out) : Agrees ret (v :: r.1, r.2) out := by
  obtain ⟨vs, verdict⟩ := r
  cases verdict <;> simpa [Agrees] using h

theorem Impl.At.canParseBuffer {s : Impl} {m : Scan} {rest : List UInt8} (h : s.At m rest) :
    s.canParseBuffer = decide (rest ≠ []) := by
  have hlen := h.length
  unfold Impl.canParseBuffer
  rw [decide_eq_decide, hlen, ← List.length_pos_iff]
  omega

theorem canParseBuffer_moveLoaded {s : Impl} (h : s.canParseBuffer = false) :
    s.moveLoaded.canParseBuffer = false := by
  unfold Impl.moveLoaded
  split
  · exact h
  · simp only [Impl.canParseBuffer, ne_eq, decide_not, Bool.not_eq_false', decide_eq_true_eq,
      List.length_drop] at h ⊢
    rw [h]

/-- The loop of `parse_buffer` ends when nothing is left. -/
theorem collect_nothing {s s' : Impl} {fuel : Nat} {ret : List ParseResult}
    (ht : s.tryParse = (.nothing, s')) (hs : s'.canParseBuffer = false) :
    s.collect (fuel + 1) ret = (.objects ret, s'.moveLoaded) := by
  unfold Impl.collect
  rw [ht]
  simp only [hs, Bool.false_eq_true, if_false]

/-- Nothing more is loaded: whatever is left is not a datum. -/
theorem tryParse_loaded {s : Impl} {m : Scan} (h : s.At m [])
    (hdead : ∀ c, m.pending[0]? = some c → c = 0) :
    ∃ s', s.tryParse = (.nothing, s') ∧ s'.At m [] := by
  have hlen := h.length
  unfold Impl.tryParse
  rw [if_neg (by rw [hlen, List.length_nil]; omega)]
  by_cases hp : m.pending = []
  · refine ⟨s, ?_, h⟩
    unfold Impl.parseRegion
    rw [if_pos (by rw [h.endIdx, hp]; rfl)]
  · have hspec := parseRegion_spec h hp
    rw [run_dead hdead] at hspec
    exact ⟨_, Prod.ext hspec.1 rfl, hspec.2⟩

theorem tryParse_unfinished {s : Impl} {m : Scan} {rest : List UInt8} {d : DatumIdentifier}
    (h : s.At m rest) (hr : rest ≠ []) (hfeed : feedUntil m.datumEnder rest = (d, none)) :
    ∃ s', s.tryParse = (.nothing, s') ∧ s'.At ⟨d, m.pending ++ rest⟩ [] := by
  have hlen := h.length
  have hpos := List.length_pos_iff.mpr hr
  have hs' := h.advance d (Nat.le_refl rest.length)
  rw [List.take_length, List.drop_length, ← hlen] at hs'
  refine ⟨_, ?_, hs'⟩
  unfold Impl.tryParse
  rw [if_pos (by omega), h.ender, h.unread, hfeed]

theorem tryParse_finished {s : Impl} {m : Scan} {rest : List UInt8} {d : DatumIdentifier} {n : Nat}
    (h : s.At m rest) (hr : rest ≠ []) (hfeed : feedUntil m.datumEnder rest = (d, some n)) :
    s.tryParse = Impl.parseRegion { s with datumEnder := d, endIdx := s.endIdx + n } := by
  have hlen := h.length
  have hpos := List.length_pos_iff.mpr hr
  unfold Impl.tryParse
  rw [if_pos (by omega), h.ender, h.unread, hfeed]

/-- The loop of `parse_buffer` at a datum it cannot make sense of. -/
theorem collect_stuck {s s' : Impl} {fuel : Nat} {ret : List ParseResult} {rest : List UInt8}
    (ht : s.tryParse = (if rest = [] then .nothing else .assertFailed, s'))
    (hs : rest = [] → s'.canParseBuffer = false) :
    Agrees ret ([], .stuck rest) (s.collect (fuel + 1) ret) := by
  by_cases hr : rest = []
  · rw [if_pos hr] at ht
    rw [collect_nothing ht (hs hr)]
    exact ⟨by rw [if_pos hr, List.append_nil], fun _ => canParseBuffer_moveLoaded (hs hr)⟩
  · rw [if_neg hr] at ht
    unfold Impl.collect
    rw [ht]
    exact ⟨by rw [if_neg hr], fun h => absurd h hr⟩

/-- **RUN**: the loop of `parse_buffer`, datum after datum. -/
theorem collect_agrees {fuel : Nat} {s : Impl} {m : Scan} {rest : List UInt8}
    (h : s.At m rest) (hf : rest.length < fuel)
    (hdead : rest = [] → ∀ c, m.pending[0]? = some c → c = 0) (ret : List ParseResult) :
    Agrees ret (scan m rest) (s.collect fuel ret) := by
  induction fuel generalizing s m rest ret with
  | zero => exact absurd hf (Nat.not_lt_zero _)
  | succ fuel ih =>
      by_cases hr : rest = []
      · subst hr
        obtain ⟨s', ht, hs'⟩ := tryParse_loaded h (hdead rfl)
        rw [collect_nothing ht hs'.canParseBuffer]
        exact ⟨by simp [scan], hs'.move⟩
      cases hfeed : feedUntil m.datumEnder rest with
      | mk d found =>
          cases found with
          | none =>
              obtain ⟨s', ht, hs'⟩ := tryParse_unfinished h hr hfeed
              have hscan : scan m rest = _ := scan_of_feedUntil_none hfeed m.pending
              rw [collect_nothing ht hs'.canParseBuffer, hscan]
              exact ⟨by simp, hs'.move⟩
          | some n =>
              obtain ⟨hn0, hn, hscan⟩ := scan_of_feedUntil_some hfeed m.pending
              have hs' := h.advance d hn
              have hne : m.pending ++ rest.take n ≠ [] := by
                have := List.length_pos_iff.mpr hr
                rw [← List.length_pos_iff, List.length_append, List.length_take]
                omega
              have hspec := parseRegion_spec hs' hne
              rw [← tryParse_finished h hr hfeed] at hspec
              have hm : scan m rest = scanDatum d (m.pending ++ rest.take n) (rest.drop n) := hscan
              rw [hm]
              unfold scanDatum
              simp only at hspec
              generalize hrun : Parser.init.run (m.pending ++ rest.take n) = r at hspec
              obtain ⟨st, p⟩ := r
              cases st with
              | count k =>
                  cases k with
                  | zero =>
                      obtain ⟨ht, hat⟩ := hspec
                      exact collect_stuck (Prod.ext ht rfl)
                        (fun hrest => by rw [hat.canParseBuffer, hrest]; rfl)
                  | succ k =>
                      -- a value: go on behind it
                      obtain ⟨ht, hat⟩ := hspec
                      have hstop := (run_stops (Parser.within_init _) hrun).2.2
                      have hnext := ih hat (by rw [List.length_drop]; omega)
                        (fun _ c hc => hstop c (by simpa using hc))
                        (ret ++ [⟨(m.pending ++ rest.take n).take p.pos, p.tokens⟩])
                      have hcol : s.collect (fuel + 1) ret = s.tryParse.2.collect fuel
                          (ret ++ [⟨(m.pending ++ rest.take n).take p.pos, p.tokens⟩]) := by
                        conv_lhs => unfold Impl.collect
                        rw [show s.tryParse = (_, _) from Prod.ext ht rfl]
                      rw [hcol]
                      exact agrees_cons hnext
              | inval =>
                  unfold Impl.collect
                  rw [show s.tryParse = (_, _) from Prod.ext hspec rfl]
                  rfl
              | part =>
                  obtain ⟨ht, hend, hbuf⟩ := hspec
                  refine collect_stuck (Prod.ext ht rfl) ?_
                  intro hrest
                  unfold Impl.canParseBuffer
                  rw [hend, hbuf]
                  have := hs'.canParseBuffer
                  rw [hrest] at this
                  exact this
              | nomem =>
                  have := run_ne_nomem (Parser.within_init (m.pending ++ rest.take n))
                  rw [hrun] at this
                  exact absurd rfl this

/-- **A CALL** of `parse_buffer` reads the piece just loaded byte by byte. -/
theorem parseBuffer_agrees {s : Impl} {m : Scan} (h : s.At m []) (piece : List UInt8) :
    Agrees [] (scan m piece) (s.loadBuffer piece).parseBuffer := by
  have hload := h.load piece
  have hcan := hload.canParseBuffer
  unfold Impl.parseBuffer
  by_cases hp : piece = []
  · rw [hp] at hcan hload ⊢
    rw [if_neg (by rw [hcan]; simp)]
    exact ⟨rfl, hload⟩
  · rw [if_pos (by rw [hcan]; simpa using hp)]
    refine collect_agrees hload ?_ (fun hnil => absurd hnil hp) []
    have := hload.length
    omega

/-! ## A stream in pieces -/

/-- How feeding the stream should end: with the error of a rejected datum, if
    there is one. -/
def Verdict.ending : Verdict → Ending
  | .running _         => .fine
  | .rejected text pos => .parseError text pos
  | .stuck _           => .fine

/-- Every cutting of the bytes into pieces gives the same: no assertion fails,
    all values before a malformed datum are delivered, and an error is reported
    at that datum. -/
def CutFree (bytes : List UInt8) : Prop :=
  ∀ pieces : List (List UInt8), pieces.flatten = bytes →
    Impl.init.feedPieces pieces
      = ((scan .init bytes).1, (scan .init bytes).2.ending)

/-- `jsmn` takes every datum that the `DatumIdentifier` finds; or the one it
    rejects is the first of all; or the one it takes for unfinished is the end
    of the bytes. -/
def Orderly (r : List ParseResult × Verdict) : Prop :=
  match r.2 with
  | .running _    => True
  | .rejected _ _ => r.1 = []
  | .stuck rest   => rest = []

/-- Loading nothing changes nothing. -/
theorem feedPieces_nil {s : Impl} (h : s.canParseBuffer = false) {pieces : List (List UInt8)}
    (hp : pieces.flatten = []) : s.feedPieces pieces = ([], .fine) := by
  induction pieces with
  | nil => rfl
  | cons piece pieces ih =>
      rw [List.flatten_cons, List.append_eq_nil_iff] at hp
      have hload : s.loadBuffer piece = s := by
        unfold Impl.loadBuffer
        rw [hp.1, List.append_nil]
      have hparse : (s.loadBuffer piece).parseBuffer = (.objects [], s) := by
        unfold Impl.parseBuffer
        rw [hload, if_neg (by rw [h]; exact Bool.false_ne_true)]
      simp only [Impl.feedPieces, hparse]
      rw [ih hp.2]
      rfl

/-- **RUN**: pieces of an orderly stream, from any point of it. -/
theorem feedPieces_orderly {s : Impl} {m : Scan} (h : s.At m []) {pieces : List (List UInt8)}
    (ho : Orderly (scan m pieces.flatten)) :
    s.feedPieces pieces
      = ((scan m pieces.flatten).1, (scan m pieces.flatten).2.ending) := by
  induction pieces generalizing s m with
  | nil => rfl
  | cons piece pieces ih =>
      have hcall := parseBuffer_agrees h piece
      rw [List.flatten_cons, scan_append] at ho ⊢
      rw [Impl.feedPieces]
      generalize (s.loadBuffer piece).parseBuffer = out at hcall ⊢
      generalize scan m piece = r at hcall ho ⊢
      obtain ⟨vs, verdict⟩ := r
      obtain ⟨res, s'⟩ := out
      cases verdict with
      | running m' =>
          obtain ⟨hres, hat⟩ := hcall
          dsimp only at hres
          subst hres
          have ho' : Orderly (scan m' pieces.flatten) := by
            unfold Orderly resume at *
            dsimp only at ho ⊢
            cases hv : (scan m' pieces.flatten).2 with
            | running _ => exact True.intro
            | rejected _ _ =>
                rw [hv] at ho
                exact (List.append_eq_nil_iff.mp ho).2
            | stuck _ =>
                rw [hv] at ho
                exact ho
          simp only [List.nil_append, ih hat ho']
          rfl
      | rejected text pos =>
          have hvs : vs = [] := ho
          have hres : res = .parseError text pos := hcall
          subst hres hvs
          rfl
      | stuck rest =>
          obtain ⟨hres, hs'⟩ := hcall
          have hnil : rest ++ pieces.flatten = [] := ho
          obtain ⟨rfl, hflat⟩ := List.append_eq_nil_iff.mp hnil
          dsimp only at hres
          rw [if_pos rfl, List.nil_append] at hres
          subst hres
          simp only [feedPieces_nil (hs' rfl) hflat, List.append_nil]
          rfl

/-- **THE PIECES DO NOT MATTER** exactly for the orderly byte sequences, with data of less
    than `2 ^ 31` bytes. -/
theorem cutFree_iff (bytes : List UInt8) : CutFree bytes ↔ Orderly (scan .init bytes) := by
  constructor
  · -- what goes wrong goes wrong in one piece
    intro hcut
    have hone := hcut [bytes] (by simp)
    have hcall := parseBuffer_agrees Impl.At.init bytes
    rw [Impl.feedPieces] at hone
    generalize (Impl.init.loadBuffer bytes).parseBuffer = out at hcall hone
    generalize scan .init bytes = r at hcall hone ⊢
    obtain ⟨vs, verdict⟩ := r
    obtain ⟨res, s'⟩ := out
    cases verdict with
    | running m => exact True.intro
    | rejected text pos =>
        have hres : res = .parseError text pos := hcall
        subst hres
        exact (Prod.mk.inj hone).1.symm
    | stuck rest =>
        show rest = []
        obtain ⟨hres, -⟩ := hcall
        by_cases hr : rest = []
        · exact hr
        · dsimp only at hres
          rw [if_neg hr] at hres
          subst hres
          exact nomatch (Prod.mk.inj hone).2
  · intro ho pieces hflat
    rw [← hflat] at ho ⊢
    exact feedPieces_orderly Impl.At.init ho

/-- ASCII text. -/
def ascii (text : List Char) : List UInt8 := text.map Char.toUInt8

/-- `, 1 ` aborts in one piece, and `1 x ` loses its value there. -/
theorem not_cutFree_strayComma :
    Impl.init.feedPieces [ascii [',', ' ', '1', ' ']] = ([], .aborted)
      ∧ Impl.init.feedPieces [ascii [',', ' '], ascii ['1', ' ']]
        = ([⟨ascii ['1', ' '], [⟨.primitive, 0, some 1, 0, none⟩]⟩], .fine)
      ∧ Impl.init.feedPieces [ascii ['1', ' ', 'x', ' ']]
        = ([], .parseError (ascii ['x', ' ']) 0)
      ∧ Impl.init.feedPieces [ascii ['1', ' '], ascii ['x', ' ']]
        = ([⟨ascii ['1', ' '], [⟨.primitive, 0, some 1, 0, none⟩]⟩],
          .parseError (ascii ['x', ' ']) 0)
      ∧ ¬CutFree (ascii [',', ' ', '1', ' ']) ∧ ¬CutFree (ascii ['1', ' ', 'x', ' ']) := by
  refine ⟨by decide, by decide, by decide, by decide, ?_, ?_⟩
  · intro h
    exact absurd (h [ascii [',', ' ', '1', ' ']] (by decide)) (by decide)
  · intro h
    exact absurd (h [ascii ['1', ' ', 'x', ' ']] (by decide)) (by decide)

end Jsmn
