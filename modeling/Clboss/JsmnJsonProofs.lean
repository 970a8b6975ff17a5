import Clboss.JsmnStreamProofs
import Clboss.JsmnDatumProofs
import Clboss.JsmnTreeProofs

/-! # `ParserExposedBuffer` — streams of JSON values

    On valid JSON the `DatumIdentifier` and `jsmn` agree: a datum ends where its
    value ends, or with the byte after it if it is a primitive.  Reading byte by
    byte therefore goes through the whole stream (`scan_items`), and a stream
    that is read to its end is read the same in ANY pieces. -/

namespace Jsmn

open Json

/-! ## Streams -/

/-- A value and the whitespace after it. -/
abbrev Item : Type := Syn × Ws

/-- The text of the values, after some whitespace. -/
def streamText (lead : Ws) (items : List Item) : List UInt8 :=
  lead.text ++ items.flatMap (fun i => i.1.text ++ i.2.text)

/-- A primitive with no whitespace after it: more of it may come. -/
def Item.pending (i : Item) : Bool := i.1.isPrim && i.2.text.isEmpty

/-- There is whitespace between the values, at least after each primitive. -/
def Spaced (items : List Item) : Prop := ∀ i ∈ items.dropLast, Item.pending i = false

theorem Spaced.tail {i : Item} {items : List Item} (h : Spaced (i :: items)) : Spaced items := by
  intro j hj
  cases items with
  | nil => exact nomatch hj
  | cons i' items =>
      exact h j (by rw [List.dropLast_cons_of_ne_nil (List.cons_ne_nil _ _)]
                    exact List.mem_cons_of_mem _ hj)

/-- Only the last value can be pending. -/
theorem Spaced.last {i : Item} {items : List Item} (h : Spaced (i :: items))
    (hi : Item.pending i = true) : items = [] := by
  cases items with
  | nil => rfl
  | cons i' items =>
      have := h i (by rw [List.dropLast_cons_of_ne_nil (List.cons_ne_nil _ _)]
                      exact List.mem_cons_self)
      rw [hi] at this
      exact nomatch this

/-- The values to be delivered: all but a pending one. -/
def delivered (items : List Item) : List Value :=
  (items.filter (fun i => !Item.pending i)).map (fun i => i.1.value)

/-! ## One datum after the other -/

/-- A datum on whose end the automaton and `jsmn` agree. -/
theorem scan_datum {text rest : List UInt8} {p : Parser} {n : Nat}
    (hfeed : feedUntil idle (text ++ rest) = (idle, some text.length))
    (hrun : Parser.init.run text = (.count (n + 1), p)) (hpos : p.pos = text.length) :
    scan ⟨idle, []⟩ (text ++ rest)
      = (⟨text, p.tokens⟩ :: (scan ⟨idle, []⟩ rest).1, (scan ⟨idle, []⟩ rest).2) := by
  obtain ⟨-, -, hscan⟩ := scan_of_feedUntil_some hfeed []
  rw [hscan, List.nil_append, List.take_left' rfl, List.drop_left' rfl, scanDatum, hrun]
  simp only [hpos, List.take_length, List.drop_length]

/-- **STEP**: a value that is not pending is delivered. -/
theorem scan_item (lead : Ws) {v : Syn} {w : Ws} (h : Item.pending (v, w) = false)
    (rest : List UInt8) :
    ∃ (r : ParseResult) (lead' : Ws), scan ⟨idle, []⟩ (lead.text ++ (v.text ++ w.text ++ rest))
        = (r :: (scan ⟨idle, []⟩ (lead'.text ++ rest)).1, (scan ⟨idle, []⟩ (lead'.text ++ rest)).2)
      ∧ r.value = some v.value ∧ r.row = (treeOf v.value).row := by
  cases hv : v.isPrim with
  | false =>
      -- the datum is the value, and the whitespace after it leads to the next one
      obtain ⟨n, q, hrun, hpos, hvalue, hrow⟩ :=
        lays_datum lead v ⟨[], nofun⟩ (by rw [hv]; exact nofun)
      rw [List.append_nil] at hrun hpos hvalue hrow
      refine ⟨_, w, ?_, hvalue, hrow⟩
      have hsplit : lead.text ++ (v.text ++ w.text ++ rest)
          = (lead.text ++ v.text) ++ (w.text ++ rest) := by
        simp
      rw [hsplit, scan_datum (feedUntil_value lead v hv _) hrun hpos]
  | true =>
      -- the datum takes one byte of the whitespace
      cases v with
      | prim x =>
          obtain ⟨text, hblank⟩ := w
          cases text with
          | nil => exact absurd h.symm Bool.false_ne_true
          | cons c cs =>
              have hc := hblank c List.mem_cons_self
              obtain ⟨n, q, hrun, hpos, hvalue, hrow⟩ := lays_datum lead (.prim x)
                ⟨[c], by simpa using hc⟩ (fun _ => List.cons_ne_nil _ _)
              refine ⟨_, ⟨cs, fun c' hc' => hblank c' (List.mem_cons_of_mem _ hc')⟩, ?_, hvalue,
                hrow⟩
              have hsplit : lead.text ++ x.text ++ c :: (cs ++ rest)
                  = (lead.text ++ x.text ++ [c]) ++ (cs ++ rest) := by
                simp
              have hfeed := feedUntil_prim lead x hc (cs ++ rest)
              rw [hsplit] at hfeed
              rw [Syn.text] at hrun hpos hvalue ⊢
              have hscan := scan_datum hfeed hrun hpos
              rw [← hsplit] at hscan
              simpa using hscan
      | _ => exact absurd hv Bool.false_ne_true

/-- **RUN**: reading byte by byte goes through the stream and finds its values. -/
theorem scan_items {items : List Item} (h : Spaced items) (lead : Ws) :
    ∃ rs m, scan ⟨idle, []⟩ (streamText lead items) = (rs, .running m)
      ∧ rs.map ParseResult.value = (delivered items).map some
      ∧ rs.map ParseResult.row = (delivered items).map (fun v => (treeOf v).row) := by
  induction items generalizing lead with
  | nil =>
      refine ⟨[], ⟨idle, [] ++ lead.text⟩, ?_, rfl, rfl⟩
      rw [streamText, List.flatMap_nil, List.append_nil]
      exact scan_of_feedUntil_none (quiet_ws_idle lead) []
  | cons i items ih =>
      obtain ⟨v, w⟩ := i
      cases hp : Item.pending (v, w) with
      | true =>
          cases h.last hp
          cases v with
          | prim x =>
              have hw : w.text = [] := by simpa [Item.pending, Syn.isPrim] using hp
              have htext : streamText lead [(Syn.prim x, w)] = lead.text ++ x.text := by
                simp [streamText, hw, Syn.text]
              refine ⟨[], ⟨inside 0, [] ++ (lead.text ++ x.text)⟩, ?_, by simp [delivered, hp],
                by simp [delivered, hp]⟩
              rw [htext]
              exact scan_of_feedUntil_none (quiet_pending lead x) []
          | _ => exact absurd hp Bool.false_ne_true
      | false =>
          obtain ⟨r, lead', hscan, hvalue, hrow⟩ :=
            scan_item lead hp (items.flatMap (fun i => i.1.text ++ i.2.text))
          obtain ⟨rs, m, hrest, hvalues, hrows⟩ := ih h.tail lead'
          rw [streamText] at hrest
          rw [hrest] at hscan
          refine ⟨r :: rs, m, ?_, ?_, ?_⟩
          · rw [streamText, List.flatMap_cons]
            exact hscan
          · rw [List.map_cons, hvalue, hvalues]
            simp [delivered, hp]
          · rw [List.map_cons, hrow, hrows]
            simp [delivered, hp]

/-- **RUN**: the results of a stream, however it is cut, and their tokens. -/
theorem feedPieces_rows {lead : Ws} {items : List Item} (h : Spaced items)
    {pieces : List (List UInt8)} (hcut : pieces.flatten = streamText lead items) :
    ∃ rs, Impl.init.feedPieces pieces = (rs, .fine)
      ∧ rs.map ParseResult.value = (delivered items).map some
      ∧ rs.map ParseResult.row = (delivered items).map (fun v => (treeOf v).row) := by
  obtain ⟨rs, m, hscan, hvalues, hrows⟩ := scan_items h lead
  have hinit : scan .init pieces.flatten = (rs, .running m) := by
    rw [hcut]
    exact hscan
  refine ⟨rs, ?_, hvalues, hrows⟩
  rw [feedPieces_orderly Impl.At.init (by rw [hinit]; exact True.intro), hinit]
  rfl

theorem feedPieces_items {lead : Ws} {items : List Item} (h : Spaced items)
    {pieces : List (List UInt8)} (hcut : pieces.flatten = streamText lead items) :
    ∃ rs, Impl.init.feedPieces pieces = (rs, .fine)
      ∧ rs.map ParseResult.value = (delivered items).map some := by
  obtain ⟨rs, hfeed, hvalues, -⟩ := feedPieces_rows h hcut
  exact ⟨rs, hfeed, hvalues⟩

/-- **HEADLINE**: a stream of JSON values with whitespace between them, each of less
    than `2 ^ 31` bytes (`parse_init_lt`), cut into any pieces, gives its values in
    order; only a primitive at the very end, with no whitespace after it, waits
    for more. -/
theorem feedPieces_stream {lead : Ws} {items : List Item} (h : Spaced items)
    {pieces : List (List UInt8)} (hcut : pieces.flatten = streamText lead items) :
    (Impl.init.feedPieces pieces).1.map ParseResult.value = (delivered items).map some
      ∧ (Impl.init.feedPieces pieces).2 = .fine := by
  obtain ⟨rs, hfeed, hvalues⟩ := feedPieces_items h hcut
  rw [hfeed]
  exact ⟨hvalues, rfl⟩

theorem sample_blank : ∀ c ∈ [0x20], c ∈ wsBytes := forall_mem_of_all (by decide)

theorem sample_plain : 0x20 ≤ 'a'.toUInt8 ∧ 'a'.toUInt8 ≠ '"'.toUInt8
    ∧ 'a'.toUInt8 ≠ '\\'.toUInt8 := by decide

theorem sample_escape : '"'.toUInt8 ∈ escapeBytes := by decide

theorem sample_hex : ∀ c ∈ [0x30, 0x30, 0x66, 0x46], c ∈ hexBytes :=
  forall_mem_of_all (by decide)

/-- A space. -/
def sampleSpace : Ws := ⟨[0x20], sample_blank⟩

def sampleNone : Ws := ⟨[], nofun⟩

/-- An object with an escaped quote in its key, `-0.9E9`, a string of one escape,
    and a literal that may not be complete. -/
def sampleItems : List Item :=
  [(.obj (.one sampleSpace [.plain _ sample_plain, .escape _ sample_escape] sampleNone sampleSpace
      (.arr (.more sampleNone (.prim .null) sampleSpace (.one sampleSpace (.emptyArr sampleNone)
        sampleNone))) sampleNone), sampleSpace),
    (.prim (.number ⟨true, .zero, some ⟨Fin.last 9, []⟩, some ⟨true, none, ⟨Fin.last 9, []⟩⟩⟩),
      sampleSpace),
    (.str [.unicode _ _ _ _ sample_hex], sampleSpace),
    (.prim .true, sampleNone)]

/-- Every byte in a piece of its own. -/
theorem feedPieces_stream_sampleItems :
    Spaced sampleItems
      ∧ ((streamText sampleSpace sampleItems).map (fun c => [c])).flatten
        = streamText sampleSpace sampleItems
      ∧ (Impl.init.feedPieces
          ((streamText sampleSpace sampleItems).map (fun c => [c]))).1.map ParseResult.value
        = [some (.obj [([0x61, 0x5c, 0x22], .arr [.prim (ascii ['n', 'u', 'l', 'l']), .arr []])]),
          some (.prim (ascii ['-', '0', '.', '9', 'E', '9'])),
          some (.str (ascii ['\\', 'u', '0', '0', 'f', 'F']))]
      ∧ (Impl.init.feedPieces
          ((streamText sampleSpace sampleItems).map (fun c => [c]))).2 = .fine := by
  have hcut : ((streamText sampleSpace sampleItems).map (fun c => [c])).flatten
      = streamText sampleSpace sampleItems := by decide
  have hspaced : Spaced sampleItems := by
    unfold Spaced
    decide
  obtain ⟨hvalues, hend⟩ := feedPieces_stream hspaced hcut
  exact ⟨hspaced, hcut, hvalues, hend⟩

end Jsmn
