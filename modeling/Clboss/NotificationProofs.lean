import Clboss.AmountTextProofs
import Clboss.ChannelMonitorProofs
import Clboss.JsonNumberProofs
import Clboss.ScidProofs

/-! # Notifications — payloads that cannot be read

    Two monitors read notifications of `lightningd`.  Each reads its fields inside
    a `try` and logs what a `std::runtime_error` says.  But of all that the
    accessors and conversions throw only the one about node ids is a
    `runtime_error`: `TypeError`, and what the amounts and scids throw, are
    `std::invalid_argument`, and go through.

    So a payload is contained in three cases only: it is to be ignored before
    anything is converted, it is well-formed to the last field (and its amounts
    outlive the conversion), or the first thing wrong with it is a text that is no
    node id, in params that can be logged (`contained_iff`). -/

open Json Jsmn Ln
open Surveyor (Exc lift number amountOfObject Numbers)
open Util.Str (ofBytes)

namespace Notification

/-! ## Reading fields -/

/-- `double`, cast to an integer. -/
def numbers : Numbers where
  uint32 := fun t => UInt32.ofNat (toDouble t).toSize
  uint64 := fun t => UInt64.ofNat (toDouble t).toSize

section

variable (payload : Object)

/-- `std::string(payload[key])`. -/
def text (key : String) : Except Exc (List UInt8) := do
  let o ← lift (payload.index key)
  lift o.str

/-- The same where there is such a key, and else what the variable starts with. -/
def optionalText (key : String) : Except Exc (List UInt8) := do
  if ← lift (payload.has key) then text payload key else return []

/-- `Ln::NodeId(std::string(payload[key]))`. -/
def nodeId (key : String) : Except Exc NodeId := do
  let s ← text payload key
  match NodeId.ofString s with
  | none   => .error .rangeError
  | some n => .ok n

/-- `Ln::Scid(std::string(payload[key]))`. -/
def scid (key : String) : Except Exc Scid := do
  let s ← text payload key
  match Scid.ofString s with
  | none   => .error .invalidArgument
  | some i => .ok i

/-- `Ln::Amount::object(payload[key])`. -/
def amount (key : String) : Except Exc Amount := do
  let o ← lift (payload.index key)
  amountOfObject numbers o

/-- `double(payload[key])`. -/
def time (key : String) : Except Exc Double := do
  let o ← lift (payload.index key)
  let t ← number o
  return toDouble t

/-- `!payload.has(key) || …`: whether one of the keys is missing. -/
def lacks : List String → Except Failure Bool
  | []          => .ok false
  | key :: keys => do
      if ← payload.has key then lacks keys else return true

end

/-! ## The handlers -/

/-- Derived from `std::runtime_error`; the others are `std::logic_error`s. -/
def isRuntimeError : Exc → Bool
  | .rangeError => true
  | _           => false

/-- `catch (std::runtime_error const&)`: the text to log shows the params. -/
def caught {σ : Type} (params : Object) (s : σ) (e : Exc) : Except Exc σ :=
  if isRuntimeError e then
    if params.prints then .ok s else .error .assertion
  else .error e

theorem caught_ok_iff {σ : Type} {params : Object} {s s' : σ} {e : Exc} :
    caught params s e = .ok s' ↔ e = .rangeError ∧ params.prints = true ∧ s' = s := by
  unfold caught
  cases e with
  | rangeError =>
      rw [if_pos (show isRuntimeError .rangeError = true from rfl)]
      by_cases hprints : params.prints = true
      · rw [if_pos hprints]
        constructor
        · intro h
          cases h
          exact ⟨rfl, hprints, rfl⟩
        · rintro ⟨-, -, rfl⟩
          rfl
      · rw [if_neg hprints]
        exact iff_of_false nofun (fun h => hprints h.2.1)
  | _ => exact iff_of_false nofun nofun

/-- A handler comes to its end with what was read, or with a text logged. -/
theorem handler_ok_iff {σ α : Type} {params : Object} {s s' : σ} {read : Except Exc α}
    {handler : Except Exc σ} {f : α → σ} (hok : ∀ a, read = .ok a → handler = .ok (f a))
    (herror : ∀ e, read = .error e → handler = caught params s e) :
    handler = .ok s' ↔ (∃ a, read = .ok a ∧ s' = f a)
      ∨ read = .error .rangeError ∧ params.prints = true ∧ s' = s := by
  cases read with
  | ok a =>
      rw [hok a rfl]
      constructor
      · intro h
        cases h
        exact .inl ⟨a, rfl, rfl⟩
      · rintro (⟨a', ha, rfl⟩ | ⟨h, -⟩)
        · cases ha
          rfl
        · exact nomatch h
  | error e =>
      rw [herror e rfl, caught_ok_iff, Except.error.injEq, or_iff_right]
      rintro ⟨a, ha, -⟩
      exact nomatch ha

end Notification

open Notification

namespace ForwardFeeMonitor

/-- What is captured until the two peers are known. -/
structure Forward where
  inScid         : Scid
  outScid        : Scid
  fee            : Amount
  resolutionTime : Double
  amount         : Amount

/-- The forwards whose peers have been requested. -/
structure State where
  waiting : List Forward

/-- `Boss::Msg::ForwardFee`. -/
structure ForwardFee where
  inId           : NodeId
  outId          : NodeId
  fee            : Amount
  resolutionTime : Double
  amount         : Amount

/-- The keys that are asked for first. -/
def askedFor : List String := ["out_channel", "fee_msat", "resolved_time", "received_time"]

/-- The `try` block; `none` is its `return Ev::lift()`. -/
def read (params : Object) : Except Exc (Option Forward) := do
  let payload ← lift (params.index "forward_event")
  if ← lift (lacks payload askedFor) then return none
  -- this one is not asked for
  let status ← text payload "status"
  if status ≠ "settled".toUTF8.toList then return none
  let inScid ← scid payload "in_channel"
  let outScid ← scid payload "out_channel"
  let fee ← amount payload "fee_msat"
  let amount ← amount payload "out_msat"
  let resolved ← time payload "resolved_time"
  let received ← time payload "received_time"
  return some ⟨inScid, outScid, fee, resolved.sub received, amount⟩

/-- The handler of `forward_event`, up to the requests for the two peers. -/
def onForwardEvent (s : State) (params : Object) : Except Exc State :=
  match read params with
  | .ok none     => .ok s
  | .ok (some f) => .ok { s with waiting := s.waiting ++ [f] }
  | .error e     => caught params s e

/-- `operator bool` of an id: a peer that is not known has the null id. -/
def known (n : NodeId) : Bool := n.raw ≠ List.replicate 33 0

/-- `cont`, with the peers of the two scids. -/
def cont (inId outId : NodeId) (f : Forward) : Option ForwardFee :=
  if !known inId || !known outId then none
  else some ⟨inId, outId, f.fee, f.resolutionTime, f.amount⟩

end ForwardFeeMonitor

namespace ChannelCreateDestroyMonitor

/-- The `try` block of `on_channel_opened`. -/
def readOpened (params : Object) : Except Exc NodeId := do
  let payload ← lift (params.index "channel_opened")
  nodeId payload "id"

/-- `on_channel_opened`. -/
def onChannelOpened (s : State NodeId) (params : Object) : Except Exc (State NodeId) :=
  match readOpened params with
  | .ok n    => .ok (announced s n)
  | .error e => caught params s e

/-- The `try` block of `on_channel_state_changed`. -/
def readStateChanged (params : Object) : Except Exc (StateChange NodeId) := do
  let payload ← lift (params.index "channel_state_changed")
  let n ← nodeId payload "peer_id"
  let channelId ← optionalText payload "channel_id"
  -- which is not sent where it would be "unknown"
  let oldState ← optionalText payload "old_state"
  let newState ← text payload "new_state"
  return ⟨n, ofBytes channelId, channelId ≠ [], ofBytes oldState, ofBytes newState⟩

/-- `on_channel_state_changed`, once the wait for `initted` is over. -/
def onStateChanged (s : State NodeId) (params : Object) : Except Exc (State NodeId) :=
  match readStateChanged params with
  | .ok c    => .ok (onChannelStateChanged s c)
  | .error e => caught params s e

end ChannelCreateDestroyMonitor

/-! ## What a payload says -/

namespace Notification

section

variable (payload : Object) (key : String)

/-- The member under a key. -/
def Field (v : Value) : Prop := payload.index key = .ok (some v)

/-- The string under a key. -/
def Text (s : List UInt8) : Prop := ∃ raw, Field payload key (.str raw) ∧ fromEscaped raw = some s

/-- The string under a key that may be missing. -/
def OptionalText (s : List UInt8) : Prop := payload.has key = .ok false ∧ s = [] ∨ Text payload key s

/-- The id under a key. -/
def Node (n : NodeId) : Prop := ∃ s, Text payload key s ∧ NodeId.ofString s = some n

end

/-- Three decimals that fit their fields, and the fields. -/
def IsScid (s : List UInt8) (i : Scid) : Prop :=
  ∃ b t o, Scid.Spelled s b t o ∧ Scid.InRange b t o ∧ i.val.toNat / 2 ^ 40 = Decimals.value b
    ∧ i.val.toNat / 2 ^ 16 % 2 ^ 24 = Decimals.value t ∧ i.val.toNat % 2 ^ 16 = Decimals.value o

/-- A number of millisatoshi, as a number or as decimals with `msat`. -/
inductive IsAmount : Value → ℕ → Prop
  | number {n : Number} {a : ℕ} (h : n.rat = a) (hlt : a < 2 ^ 64) : IsAmount (.prim n.text) a
  | text {raw digits : List UInt8} {a : ℕ} (hraw : fromEscaped raw = some (digits ++ Amount.suffix))
      (hdec : Decimals.IsDecimal digits) (h : Decimals.value digits = a) (hlt : a < 2 ^ 64) :
      IsAmount (.str raw) a

/-- The number is a double, and the decimals are no more than thirteen. -/
inductive IsShortAmount : Value → ℕ → Prop
  | number {n : Number} {a : ℕ} (h : n.rat = a) (hlt : a < 2 ^ 64)
      (hdouble : Double.round (a : ℚ) = a) : IsShortAmount (.prim n.text) a
  | text {raw digits : List UInt8} {a : ℕ} (hraw : fromEscaped raw = some (digits ++ Amount.suffix))
      (hdec : Decimals.IsDecimal digits) (h : Decimals.value digits = a)
      (hshort : digits.length ≤ 13) : IsShortAmount (.str raw) a

/-- A number of seconds. -/
def IsTime (v : Value) (q : ℚ) : Prop := ∃ n : Number, v = .prim n.text ∧ n.rat = q

/-! ## What is read of the fields -/

section

variable {α β : Type}

theorem bind_error_iff {x : Except Exc α} {f : α → Except Exc β} {e : Exc} :
    (x >>= f) = .error e ↔ x = .error e ∨ ∃ a, x = .ok a ∧ f a = .error e := by
  cases x with
  | error e' =>
      constructor
      · intro h
        cases h
        exact .inl rfl
      · rintro (h | ⟨a, ha, -⟩)
        · cases h
          rfl
        · exact nomatch ha
  | ok a =>
      constructor
      · intro h
        exact .inr ⟨a, rfl, h⟩
      · rintro (h | ⟨a', ha, h⟩)
        · exact nomatch h
        · cases ha
          exact h

theorem lift_ok_iff {x : Except Failure α} {a : α} : lift x = .ok a ↔ x = .ok a := by
  rcases x with (_ | _) | a' <;> simp [lift]

theorem lift_ne_rangeError (x : Except Failure α) : lift x ≠ .error .rangeError := by
  rcases x with (_ | _) | a <;> simp [lift]

/-- What is made of parts that throw no `runtime_error` throws none. -/
theorem bind_ne_rangeError {x : Except Exc α} {f : α → Except Exc β}
    (hx : x ≠ .error .rangeError) (hf : ∀ a, f a ≠ .error .rangeError) :
    (x >>= f) ≠ .error .rangeError := by
  intro h
  rcases bind_error_iff.mp h with h | ⟨a, -, h⟩
  · exact hx h
  · exact hf a h

end

section

variable {payload : Object} {key : String}

theorem str_ok_iff {o : Object} {s : List UInt8} :
    o.str = .ok s ↔ ∃ raw, o = some (.str raw) ∧ fromEscaped raw = some s := by
  unfold Object.str
  split
  · rename_i raw
    constructor
    · intro h
      refine ⟨raw, rfl, ?_⟩
      cases hraw : fromEscaped raw with
      | none =>
          rw [hraw] at h
          exact nomatch h
      | some s' =>
          rw [hraw] at h
          cases h
          rfl
    · rintro ⟨raw', hraw', hs⟩
      cases hraw'
      rw [hs]
  · rename_i hno
    refine iff_of_false nofun ?_
    rintro ⟨raw, rfl, -⟩
    exact hno raw rfl

theorem text_iff {s : List UInt8} : text payload key = .ok s ↔ Text payload key s := by
  unfold text Text Field
  simp only [bind_eq_ok, lift_ok_iff, str_ok_iff]
  constructor
  · rintro ⟨o, ho, raw, rfl, hs⟩
    exact ⟨raw, ho, hs⟩
  · rintro ⟨raw, ho, hs⟩
    exact ⟨_, ho, raw, rfl, hs⟩

theorem text_ne_rangeError : text payload key ≠ .error .rangeError :=
  bind_ne_rangeError (lift_ne_rangeError _) (fun _ => lift_ne_rangeError _)

theorem Text.unique {s s' : List UInt8} (h : Text payload key s) (h' : Text payload key s') :
    s = s' := Except.ok.inj ((text_iff.mpr h).symm.trans (text_iff.mpr h'))

theorem Field.has {v : Value} (h : Field payload key v) : payload.has key = .ok true := by
  unfold Object.has
  rw [h]
  rfl

theorem Text.has {s : List UInt8} (h : Text payload key s) : payload.has key = .ok true := by
  obtain ⟨raw, hfield, -⟩ := h
  exact hfield.has

theorem nodeId_iff {n : NodeId} : nodeId payload key = .ok n ↔ Node payload key n := by
  unfold nodeId Node
  simp only [bind_eq_ok, text_iff]
  refine exists_congr fun s => and_congr_right fun _ => ?_
  cases NodeId.ofString s with
  | none => exact iff_of_false nofun nofun
  | some n' => rw [Except.ok.injEq, Option.some.injEq]

/-- The one `runtime_error`. -/
theorem nodeId_rangeError_iff :
    nodeId payload key = .error .rangeError
      ↔ ∃ s, Text payload key s ∧ NodeId.validString s = false := by
  unfold nodeId
  rw [bind_error_iff, or_iff_right text_ne_rangeError]
  simp only [text_iff]
  refine exists_congr fun s => and_congr_right fun _ => ?_
  rw [← NodeId.isSome_ofString]
  cases NodeId.ofString s with
  | none => exact iff_of_true rfl rfl
  | some n' => exact iff_of_false nofun nofun

theorem Node.valid {n : NodeId} (h : Node payload key n) :
    ∃ s, Text payload key s ∧ NodeId.validString s = true := by
  obtain ⟨s, hs, hn⟩ := h
  refine ⟨s, hs, ?_⟩
  rw [← NodeId.isSome_ofString, hn]
  rfl

theorem Text.node {s : List UInt8} (h : Text payload key s)
    (hvalid : NodeId.validString s = true) : ∃ n, Node payload key n := by
  rw [← NodeId.isSome_ofString] at hvalid
  obtain ⟨n, hn⟩ := Option.isSome_iff_exists.mp hvalid
  exact ⟨n, s, h, hn⟩

theorem optionalText_iff {s : List UInt8} :
    optionalText payload key = .ok s ↔ OptionalText payload key s := by
  unfold optionalText OptionalText
  rw [bind_eq_ok]
  simp only [lift_ok_iff]
  constructor
  · rintro ⟨b, hb, h⟩
    cases b with
    | true => exact .inr (text_iff.mp h)
    | false =>
        cases h
        exact .inl ⟨hb, rfl⟩
  · rintro (⟨hb, rfl⟩ | h)
    · exact ⟨false, hb, rfl⟩
    · exact ⟨true, h.has, text_iff.mpr h⟩

theorem optionalText_ne_rangeError : optionalText payload key ≠ .error .rangeError := by
  refine bind_ne_rangeError (lift_ne_rangeError _) ?_
  intro b
  cases b with
  | true => exact text_ne_rangeError
  | false => nofun

theorem IsScid.ofString {s : List UInt8} {i : Scid} (h : IsScid s i) :
    Scid.ofString s = some i := by
  obtain ⟨b, t, o, hs, hrange, hb, ht, ho⟩ := h
  refine Scid.ofString_iff.mpr ⟨b, t, o, hs, hrange.climb, ?_, ?_, ?_⟩
  · rw [hb, Nat.mod_eq_of_lt hrange.1]
  · rw [ht, Nat.mod_eq_of_lt hrange.2.1]
  · rw [ho, Nat.mod_eq_of_lt hrange.2.2]

theorem scid_iff {i : Scid} :
    scid payload key = .ok i ↔ ∃ s, Text payload key s ∧ Scid.ofString s = some i := by
  unfold scid
  simp only [bind_eq_ok, text_iff]
  refine exists_congr fun s => and_congr_right fun _ => ?_
  cases Scid.ofString s with
  | none => exact iff_of_false nofun nofun
  | some i' => rw [Except.ok.injEq, Option.some.injEq]

theorem scid_ne_rangeError : scid payload key ≠ .error .rangeError := by
  refine bind_ne_rangeError text_ne_rangeError ?_
  intro s
  cases Scid.ofString s <;> nofun

/-! ## What is read of amounts and times -/

theorem number_ok_iff {o : Object} {t : List UInt8} :
    number o = .ok t ↔ o = some (.prim t) ∧ Object.isNumber o = true := by
  unfold number Object.isNumber
  split
  · rename_i t'
    simp only [decide_eq_true_eq]
    by_cases hlit : t'.head? = some 'n'.toUInt8 ∨ t'.head? = some 'f'.toUInt8
        ∨ t'.head? = some 't'.toUInt8
    · rw [if_pos hlit]
      refine iff_of_false nofun ?_
      rintro ⟨-, ht, hf, hn⟩
      rcases hlit with h | h | h
      · exact hn h
      · exact hf h
      · exact ht h
    · rw [if_neg hlit]
      constructor
      · intro h
        cases h
        exact ⟨rfl, fun h => hlit (.inr (.inr h)), fun h => hlit (.inr (.inl h)),
          fun h => hlit (.inl h)⟩
      · rintro ⟨h, -⟩
        cases h
        rfl
  · rename_i hno
    refine iff_of_false nofun ?_
    rintro ⟨rfl, -⟩
    exact hno t rfl

theorem number_ne_rangeError (o : Object) : number o ≠ .error .rangeError := by
  unfold number
  split
  · split <;> nofun
  · nofun

theorem amountOfObject_ne_rangeError (o : Object) :
    amountOfObject numbers o ≠ .error .rangeError := by
  unfold amountOfObject
  split
  · exact bind_ne_rangeError (number_ne_rangeError o) nofun
  · split
    · refine bind_ne_rangeError (lift_ne_rangeError _) ?_
      intro s
      unfold Surveyor.amountOfString
      split <;> nofun
    · nofun

/-- **SPEC** of an amount that is a number: what is made of its double. -/
theorem amountOfObject_number (n : Number) :
    amountOfObject numbers (some (.prim n.text))
      = .ok ⟨UInt64.ofNat (toDouble n.text).toSize⟩ := by
  have hnumber := isNumber_text n
  unfold amountOfObject
  rw [if_pos hnumber, number_ok_iff.mpr ⟨rfl, hnumber⟩]
  rfl

theorem amountOfObject_text {raw s : List UInt8} (hraw : fromEscaped raw = some s) :
    amountOfObject numbers (some (.str raw)) = Surveyor.amountOfString s := by
  have hnumber : ¬Object.isNumber (some (.str raw)) = true := Bool.false_ne_true
  have hstring : Object.isString (some (.str raw)) = true := rfl
  unfold amountOfObject
  rw [if_neg hnumber, if_pos hstring, str_ok_iff.mpr ⟨raw, rfl, hraw⟩]
  rfl

theorem toSize_lt (x : Double) : x.toSize < 2 ^ 64 := by
  cases x with
  | finite q => exact Nat.mod_lt _ (by norm_num)
  | _ => exact Nat.two_pow_pos 64

/-- **SPEC** of `Amount::object`: an amount is read as what it is exactly if it is
    a double or has no more than thirteen digits. -/
theorem isShortAmount_iff {v : Value} {a : ℕ} :
    IsShortAmount v a
      ↔ IsAmount v a ∧ ∃ A, amountOfObject numbers (some v) = .ok A ∧ A.v.toNat = a := by
  constructor
  · rintro (⟨h, hlt, hdouble⟩ | ⟨hraw, hdec, h, hshort⟩)
    · refine ⟨.number h hlt, _, amountOfObject_number _, ?_⟩
      rw [(toSize_toDouble_iff h hlt).mpr hdouble]
      exact UInt64.toNat_ofNat_of_lt hlt
    · rename_i raw digits
      -- thirteen digits stay below `2 ^ 64`
      have hvalid := Amount.validString_iff.mpr ⟨digits, hdec, hshort, rfl⟩
      obtain ⟨digits', A, -, hsame, hread, hA⟩ := Amount.reads hvalid
      cases List.append_cancel_right hsame
      have hlt : Decimals.value digits < 2 ^ 64 := by
        rw [← hA]
        exact A.v.toNat_lt
      refine ⟨.text hraw hdec h (by rwa [h] at hlt), A, ?_, hA.trans h⟩
      rw [amountOfObject_text hraw, hread]
  · rintro ⟨⟨h, hlt⟩ | ⟨hraw, hdec, h, hlt⟩, A, hread, hA⟩
    · rw [amountOfObject_number] at hread
      cases hread
      refine .number h hlt ((toSize_toDouble_iff h hlt).mp ?_)
      rw [← hA]
      exact (UInt64.toNat_ofNat_of_lt (toSize_lt _)).symm
    · rw [amountOfObject_text hraw] at hread
      unfold Surveyor.amountOfString at hread
      split at hread
      · rename_i hvalid
        obtain ⟨digits', -, hshort, hsame⟩ := Amount.validString_iff.mp hvalid
        cases List.append_cancel_right hsame
        exact .text hraw hdec h hshort
      · exact nomatch hread

theorem IsAmount.unique {v : Value} {a a' : ℕ} (h : IsAmount v a) (h' : IsAmount v a') : a = a' := by
  generalize hv : v = v' at h'
  cases h with
  | number h hlt =>
      cases h' with
      | number h' hlt' =>
          have hrat := rat_eq_of_text_eq (Value.prim.inj hv)
          rw [h, h'] at hrat
          exact_mod_cast hrat
      | text => exact nomatch hv
  | text hraw hdec h hlt =>
      cases h' with
      | number => exact nomatch hv
      | text hraw' hdec' h' hlt' =>
          cases hv
          cases List.append_cancel_right (Option.some.inj (hraw.symm.trans hraw'))
          exact h.symm.trans h'

theorem IsTime.unique {v : Value} {q q' : ℚ} (h : IsTime v q) (h' : IsTime v q') : q = q' := by
  obtain ⟨n, rfl, rfl⟩ := h
  obtain ⟨n', hv, rfl⟩ := h'
  exact rat_eq_of_text_eq (Value.prim.inj hv)

theorem Field.unique {v v' : Value} (h : Field payload key v) (h' : Field payload key v') :
    v = v' := by
  cases h.symm.trans h'
  rfl

theorem amount_iff {A : Amount} :
    amount payload key = .ok A
      ↔ ∃ v, Field payload key v ∧ amountOfObject numbers (some v) = .ok A := by
  unfold amount Field
  simp only [bind_eq_ok, lift_ok_iff]
  constructor
  · rintro ⟨o, ho, h⟩
    cases o with
    | none => exact nomatch h
    | some v => exact ⟨v, ho, h⟩
  · rintro ⟨v, ho, h⟩
    exact ⟨_, ho, h⟩

theorem amount_ne_rangeError : amount payload key ≠ .error .rangeError :=
  bind_ne_rangeError (lift_ne_rangeError _) amountOfObject_ne_rangeError

theorem time_of_isTime {v : Value} {q : ℚ} (hv : Field payload key v) (h : IsTime v q) :
    time payload key = .ok (Double.ofRat q).clamp := by
  obtain ⟨n, rfl, rfl⟩ := h
  refine bind_eq_ok.mpr ⟨_, lift_ok_iff.mpr hv, bind_eq_ok.mpr ⟨n.text, ?_, ?_⟩⟩
  · exact number_ok_iff.mpr ⟨rfl, isNumber_text n⟩
  · rw [toDouble_text]
    rfl

theorem time_ne_rangeError : time payload key ≠ .error .rangeError :=
  bind_ne_rangeError (lift_ne_rangeError _)
    (fun o => bind_ne_rangeError (number_ne_rangeError o) nofun)

end

end Notification

/-! ## `forward_event` -/

namespace ForwardFeeMonitor

/-- What the payload of a settled forward says. -/
structure Told where
  inScid   : Scid
  outScid  : Scid
  fee      : ℕ
  amount   : ℕ
  resolved : ℚ
  received : ℚ

/-- The payload of a settled forward, with all its fields; `isAmount` says what
    amounts it may have. -/
structure Tells (isAmount : Value → ℕ → Prop) (payload : Object) (t : Told) : Prop where
  status   : Text payload "status" "settled".toUTF8.toList
  inScid   : ∃ s, Text payload "in_channel" s ∧ IsScid s t.inScid
  outScid  : ∃ s, Text payload "out_channel" s ∧ IsScid s t.outScid
  fee      : ∃ v, Field payload "fee_msat" v ∧ isAmount v t.fee
  amount   : ∃ v, Field payload "out_msat" v ∧ isAmount v t.amount
  resolved : ∃ v, Field payload "resolved_time" v ∧ IsTime v t.resolved
  received : ∃ v, Field payload "received_time" v ∧ IsTime v t.received

/-- The params of a settled forward. -/
def TellsIn (isAmount : Value → ℕ → Prop) (params : Object) (t : Told) : Prop :=
  ∃ payload, params.index "forward_event" = .ok payload ∧ Tells isAmount payload t

/-- The params of a forward that is to be ignored: one of the keys asked for is
    missing, or the status is another one. -/
def Ignored (params : Object) : Prop :=
  ∃ payload, params.index "forward_event" = .ok payload
    ∧ (lacks payload askedFor = .ok true
      ∨ lacks payload askedFor = .ok false
        ∧ ∃ s, Text payload "status" s ∧ s ≠ "settled".toUTF8.toList)

/-- The message has these values. -/
structure ForwardFee.Carries (m : ForwardFee) (t : Told) : Prop where
  fee            : m.fee.v.toNat = t.fee
  amount         : m.amount.v.toNat = t.amount
  resolutionTime : m.resolutionTime
    = (Double.ofRat t.resolved).clamp.sub (Double.ofRat t.received).clamp

/-- The peers of these scids are requested, and if they are known the message is
    about them and has these values. -/
structure Forward.Carries (f : Forward) (t : Told) : Prop where
  inScid  : f.inScid = t.inScid
  outScid : f.outScid = t.outScid
  message : ∀ {inId outId : NodeId}, known inId → known outId →
    ∃ m, cont inId outId f = some m ∧ m.inId = inId ∧ m.outId = outId ∧ m.Carries t

/-- What the handler should do with `params`. -/
structure Contained (s s' : State) (params : Object) : Prop where
  unchanged : (¬∃ t, TellsIn IsAmount params t) → s' = s
  carried   : ∀ t, TellsIn IsAmount params t →
    ∃ f, s'.waiting = s.waiting ++ [f] ∧ f.Carries t

theorem lacks_of_has {payload : Object} {keys : List String}
    (h : ∀ key ∈ keys, payload.has key = .ok true) : lacks payload keys = .ok false := by
  induction keys with
  | nil => rfl
  | cons key keys ih =>
      rw [lacks, h key List.mem_cons_self]
      exact ih (fun k hk => h k (List.mem_cons_of_mem _ hk))

/-- Nothing that is asked for is missing. -/
theorem Tells.lacks {isAmount : Value → ℕ → Prop} {payload : Object} {t : Told}
    (h : Tells isAmount payload t) : lacks payload askedFor = .ok false := by
  refine lacks_of_has ?_
  obtain ⟨s, hout, -⟩ := h.outScid
  obtain ⟨v, hfee, -⟩ := h.fee
  obtain ⟨v', hresolved, -⟩ := h.resolved
  obtain ⟨v'', hreceived, -⟩ := h.received
  unfold askedFor
  simp only [List.mem_cons, List.not_mem_nil, or_false]
  rintro key (rfl | rfl | rfl | rfl)
  · exact hout.has
  · exact hfee.has
  · exact hresolved.has
  · exact hreceived.has

/-- **SPEC** of what is read. -/
theorem read_iff {params : Object} {f : Forward} :
    read params = .ok (some f) ↔ ∃ payload, params.index "forward_event" = .ok payload
      ∧ lacks payload askedFor = .ok false ∧ Text payload "status" "settled".toUTF8.toList
      ∧ scid payload "in_channel" = .ok f.inScid ∧ scid payload "out_channel" = .ok f.outScid
      ∧ amount payload "fee_msat" = .ok f.fee ∧ amount payload "out_msat" = .ok f.amount
      ∧ ∃ resolved received, time payload "resolved_time" = .ok resolved
        ∧ time payload "received_time" = .ok received
        ∧ f.resolutionTime = resolved.sub received := by
  unfold read
  constructor
  · intro h
    obtain ⟨payload, hpayload, h⟩ := bind_eq_ok.mp h
    obtain ⟨missing, hmissing, h⟩ := bind_eq_ok.mp h
    cases missing with
    | true => exact nomatch h
    | false =>
        obtain ⟨status, hstatus, h⟩ := bind_eq_ok.mp h
        by_cases hsettled : status = "settled".toUTF8.toList
        · rw [if_neg (not_not.mpr hsettled)] at h
          obtain ⟨inScid, hin, h⟩ := bind_eq_ok.mp h
          obtain ⟨outScid, hout, h⟩ := bind_eq_ok.mp h
          obtain ⟨fee, hfee, h⟩ := bind_eq_ok.mp h
          obtain ⟨amt, hamount, h⟩ := bind_eq_ok.mp h
          obtain ⟨resolved, hresolved, h⟩ := bind_eq_ok.mp h
          obtain ⟨received, hreceived, h⟩ := bind_eq_ok.mp h
          cases h
          rw [hsettled] at hstatus
          exact ⟨payload, lift_ok_iff.mp hpayload, lift_ok_iff.mp hmissing, text_iff.mp hstatus,
            hin, hout, hfee, hamount, resolved, received, hresolved, hreceived, rfl⟩
        · rw [if_pos hsettled] at h
          exact nomatch h
  · rintro ⟨payload, hpayload, hmissing, hstatus, hin, hout, hfee, hamount, resolved, received,
      hresolved, hreceived, htime⟩
    refine bind_eq_ok.mpr ⟨payload, lift_ok_iff.mpr hpayload, bind_eq_ok.mpr
      ⟨false, lift_ok_iff.mpr hmissing, bind_eq_ok.mpr ⟨_, text_iff.mpr hstatus, ?_⟩⟩⟩
    rw [if_neg (not_not.mpr rfl)]
    refine bind_eq_ok.mpr ⟨_, hin, bind_eq_ok.mpr ⟨_, hout, bind_eq_ok.mpr ⟨_, hfee,
      bind_eq_ok.mpr ⟨_, hamount, bind_eq_ok.mpr ⟨_, hresolved, bind_eq_ok.mpr
      ⟨_, hreceived, ?_⟩⟩⟩⟩⟩⟩
    rw [← htime]
    rfl

/-- **SPEC** of the early returns. -/
theorem read_none_iff {params : Object} : read params = .ok none ↔ Ignored params := by
  unfold read
  constructor
  · intro h
    obtain ⟨payload, hpayload, h⟩ := bind_eq_ok.mp h
    obtain ⟨missing, hmissing, h⟩ := bind_eq_ok.mp h
    refine ⟨payload, lift_ok_iff.mp hpayload, ?_⟩
    cases missing with
    | true => exact .inl (lift_ok_iff.mp hmissing)
    | false =>
        obtain ⟨status, hstatus, h⟩ := bind_eq_ok.mp h
        refine .inr ⟨lift_ok_iff.mp hmissing, status, text_iff.mp hstatus, ?_⟩
        intro hsettled
        rw [if_neg (not_not.mpr hsettled)] at h
        obtain ⟨_, -, h⟩ := bind_eq_ok.mp h
        obtain ⟨_, -, h⟩ := bind_eq_ok.mp h
        obtain ⟨_, -, h⟩ := bind_eq_ok.mp h
        obtain ⟨_, -, h⟩ := bind_eq_ok.mp h
        obtain ⟨_, -, h⟩ := bind_eq_ok.mp h
        obtain ⟨_, -, h⟩ := bind_eq_ok.mp h
        exact nomatch h
  · rintro ⟨payload, hpayload, hmissing | ⟨hmissing, status, hstatus, hsettled⟩⟩
    · exact bind_eq_ok.mpr ⟨payload, lift_ok_iff.mpr hpayload, bind_eq_ok.mpr
        ⟨true, lift_ok_iff.mpr hmissing, rfl⟩⟩
    · refine bind_eq_ok.mpr ⟨payload, lift_ok_iff.mpr hpayload, bind_eq_ok.mpr
        ⟨false, lift_ok_iff.mpr hmissing, bind_eq_ok.mpr ⟨_, text_iff.mpr hstatus, ?_⟩⟩⟩
      rw [if_pos hsettled]
      rfl

/-- The handler catches nothing: no field is a node id. -/
theorem read_ne_rangeError (params : Object) : read params ≠ .error .rangeError := by
  refine bind_ne_rangeError (lift_ne_rangeError _) fun payload =>
    bind_ne_rangeError (lift_ne_rangeError _) fun missing => ?_
  cases missing with
  | true => nofun
  | false =>
      refine bind_ne_rangeError text_ne_rangeError fun status => ?_
      by_cases hsettled : status = "settled".toUTF8.toList
      · rw [if_neg (not_not.mpr hsettled)]
        -- scids, amounts and times that cannot be read are `std::invalid_argument`
        exact bind_ne_rangeError scid_ne_rangeError fun _ =>
          bind_ne_rangeError scid_ne_rangeError fun _ =>
          bind_ne_rangeError amount_ne_rangeError fun _ =>
          bind_ne_rangeError amount_ne_rangeError fun _ =>
          bind_ne_rangeError time_ne_rangeError fun _ =>
          bind_ne_rangeError time_ne_rangeError nofun
      · rw [if_pos hsettled]
        nofun

theorem Tells.of_short {payload : Object} {t : Told} (h : Tells IsShortAmount payload t) :
    Tells IsAmount payload t := by
  obtain ⟨v, hv, hfee⟩ := h.fee
  obtain ⟨v', hv', hamount⟩ := h.amount
  exact { h with
    fee := ⟨v, hv, (isShortAmount_iff.mp hfee).1⟩
    amount := ⟨v', hv', (isShortAmount_iff.mp hamount).1⟩ }

theorem cont_of_known {inId outId : NodeId} {f : Forward} (hin : known inId) (hout : known outId) :
    cont inId outId f = some ⟨inId, outId, f.fee, f.resolutionTime, f.amount⟩ := by
  unfold cont
  rw [hin, hout]
  rfl

/-- A payload whose amounts are short is read, and read as what it says. -/
theorem read_of_tellsIn {params : Object} {t : Told} (h : TellsIn IsShortAmount params t) :
    ∃ f, read params = .ok (some f) ∧ f.Carries t := by
  obtain ⟨payload, hpayload, h⟩ := h
  obtain ⟨sin, hsin, hin⟩ := h.inScid
  obtain ⟨sout, hsout, hout⟩ := h.outScid
  obtain ⟨vfee, hvfee, hfee⟩ := h.fee
  obtain ⟨vamount, hvamount, hamount⟩ := h.amount
  obtain ⟨vres, hvres, hres⟩ := h.resolved
  obtain ⟨vrec, hvrec, hrec⟩ := h.received
  obtain ⟨-, fee, hreadFee, hfee⟩ := isShortAmount_iff.mp hfee
  obtain ⟨-, amt, hreadAmount, hamount⟩ := isShortAmount_iff.mp hamount
  refine ⟨⟨t.inScid, t.outScid, fee, _, amt⟩, read_iff.mpr ⟨payload, hpayload, h.lacks, h.status,
    scid_iff.mpr ⟨sin, hsin, hin.ofString⟩, scid_iff.mpr ⟨sout, hsout, hout.ofString⟩,
    amount_iff.mpr ⟨vfee, hvfee, hreadFee⟩, amount_iff.mpr ⟨vamount, hvamount, hreadAmount⟩, _, _,
    time_of_isTime hvres hres, time_of_isTime hvrec hrec, rfl⟩, rfl, rfl, ?_⟩
  intro inId outId hknownIn hknownOut
  exact ⟨_, cont_of_known hknownIn hknownOut, rfl, rfl, hfee, hamount, rfl⟩

/-- A peer. -/
def somePeer : NodeId := ⟨2 :: List.replicate 32 0, by decide⟩

/-- What is read as what it says has short amounts. -/
theorem tellsIn_of_read {params : Object} {f : Forward} {t : Told}
    (hread : read params = .ok (some f)) (h : TellsIn IsAmount params t) (hf : f.Carries t) :
    TellsIn IsShortAmount params t := by
  obtain ⟨payload, hpayload, h⟩ := h
  obtain ⟨payload', hpayload', -, -, -, -, hfee, hamount, -⟩ := read_iff.mp hread
  cases hpayload.symm.trans hpayload'
  obtain ⟨vfee, hvfee, hreadFee⟩ := amount_iff.mp hfee
  obtain ⟨vamount, hvamount, hreadAmount⟩ := amount_iff.mp hamount
  obtain ⟨vfee', hvfee', hsaysFee⟩ := h.fee
  obtain ⟨vamount', hvamount', hsaysAmount⟩ := h.amount
  cases hvfee.symm.trans hvfee'
  cases hvamount.symm.trans hvamount'
  -- any two peers that are known show what the message carries
  have hknown : known somePeer := by decide
  obtain ⟨m, hm, -, -, hcarries⟩ := hf.message hknown hknown
  rw [cont_of_known hknown hknown] at hm
  cases hm
  exact ⟨payload, hpayload, { h with
    fee := ⟨vfee, hvfee, isShortAmount_iff.mpr ⟨hsaysFee, f.fee, hreadFee, hcarries.fee⟩⟩
    amount := ⟨vamount, hvamount,
      isShortAmount_iff.mpr ⟨hsaysAmount, f.amount, hreadAmount, hcarries.amount⟩⟩ }⟩

/-- What is ignored is not a settled forward. -/
theorem Ignored.not_tellsIn {isAmount : Value → ℕ → Prop} {params : Object} (h : Ignored params)
    (t : Told) : ¬TellsIn isAmount params t := by
  rintro ⟨payload, hpayload, ht⟩
  obtain ⟨payload', hpayload', hmissing | ⟨-, s, hs, hne⟩⟩ := h
  · cases hpayload.symm.trans hpayload'
    exact nomatch hmissing.symm.trans ht.lacks
  · cases hpayload.symm.trans hpayload'
    exact hne (hs.unique ht.status)

theorem TellsIn.unique {params : Object} {t t' : Told} (h : TellsIn IsAmount params t)
    (h' : TellsIn IsAmount params t') : t = t' := by
  obtain ⟨payload, hpayload, h⟩ := h
  obtain ⟨payload', hpayload', h'⟩ := h'
  cases hpayload.symm.trans hpayload'
  have hscid : ∀ {key : String} {i i' : Scid}, (∃ s, Text payload key s ∧ IsScid s i) →
      (∃ s, Text payload key s ∧ IsScid s i') → i = i' := by
    rintro key i i' ⟨s, hs, hi⟩ ⟨s', hs', hi'⟩
    cases hs.unique hs'
    exact Option.some.inj (hi.ofString.symm.trans hi'.ofString)
  have hamount : ∀ {key : String} {a a' : ℕ}, (∃ v, Field payload key v ∧ IsAmount v a) →
      (∃ v, Field payload key v ∧ IsAmount v a') → a = a' := by
    rintro key a a' ⟨v, hv, ha⟩ ⟨v', hv', ha'⟩
    cases hv.unique hv'
    exact ha.unique ha'
  have htime : ∀ {key : String} {q q' : ℚ}, (∃ v, Field payload key v ∧ IsTime v q) →
      (∃ v, Field payload key v ∧ IsTime v q') → q = q' := by
    rintro key q q' ⟨v, hv, hq⟩ ⟨v', hv', hq'⟩
    cases hv.unique hv'
    exact hq.unique hq'
  obtain ⟨inScid, outScid, fee, amt, resolved, received⟩ := t
  obtain ⟨inScid', outScid', fee', amt', resolved', received'⟩ := t'
  cases hscid h.inScid h'.inScid
  cases hscid h.outScid h'.outScid
  cases hamount h.fee h'.fee
  cases hamount h.amount h'.amount
  cases htime h.resolved h'.resolved
  cases htime h.received h'.received
  rfl

/-- **SPEC** of the handler: it catches nothing. -/
theorem onForwardEvent_ok_iff {s s' : State} {params : Object} :
    onForwardEvent s params = .ok s' ↔ read params = .ok none ∧ s' = s
      ∨ ∃ f, read params = .ok (some f) ∧ s' = ⟨s.waiting ++ [f]⟩ := by
  unfold onForwardEvent
  cases hread : read params with
  | error e =>
      refine iff_of_false ?_ (by rintro (⟨h, -⟩ | ⟨f, h, -⟩) <;> exact nomatch h)
      intro h
      obtain ⟨rfl, -⟩ := caught_ok_iff.mp h
      exact read_ne_rangeError params hread
  | ok read =>
      cases read with
      | none =>
          constructor
          · intro h
            cases h
            exact .inl ⟨rfl, rfl⟩
          · rintro (⟨-, rfl⟩ | ⟨f, h, -⟩)
            · rfl
            · exact nomatch h
      | some f =>
          constructor
          · intro h
            cases h
            exact .inr ⟨f, rfl, rfl⟩
          · rintro (⟨h, -⟩ | ⟨f', h, rfl⟩)
            · exact nomatch h
            · cases h
              rfl

/-- **HEADLINE**: `forward_event` is contained exactly if it is to be ignored, or
    tells of a settled forward with short amounts. -/
theorem onForwardEvent_iff (s : State) (params : Object) :
    (∃ s', onForwardEvent s params = .ok s' ∧ Contained s s' params)
      ↔ Ignored params ∨ ∃ t, TellsIn IsShortAmount params t := by
  constructor
  · rintro ⟨s', hs', hcontained⟩
    rcases onForwardEvent_ok_iff.mp hs' with ⟨hread, -⟩ | ⟨f, hread, rfl⟩
    · exact .inl (read_none_iff.mp hread)
    · by_cases htells : ∃ t, TellsIn IsAmount params t
      · obtain ⟨t, ht⟩ := htells
        obtain ⟨f', hf', hcarries⟩ := hcontained.carried t ht
        cases List.append_cancel_left hf'
        exact .inr ⟨t, tellsIn_of_read hread ht hcarries⟩
      · have hlen := congrArg (fun s : State => s.waiting.length) (hcontained.unchanged htells)
        simp at hlen
  · rintro (hignored | ⟨t, ht⟩)
    · exact ⟨s, onForwardEvent_ok_iff.mpr (.inl ⟨read_none_iff.mpr hignored, rfl⟩), fun _ => rfl,
        fun t ht => absurd ht (hignored.not_tellsIn t)⟩
    · obtain ⟨f, hread, hcarries⟩ := read_of_tellsIn ht
      obtain ⟨payload, hpayload, hshort⟩ := ht
      have hsays : TellsIn IsAmount params t := ⟨payload, hpayload, hshort.of_short⟩
      refine ⟨⟨s.waiting ++ [f]⟩, onForwardEvent_ok_iff.mpr (.inr ⟨f, hread, rfl⟩),
        fun hno => absurd ⟨t, hsays⟩ hno, ?_⟩
      intro t' ht'
      cases hsays.unique ht'
      exact ⟨f, rfl, hcarries⟩

end ForwardFeeMonitor

/-! ## `channel_opened` -/

namespace ChannelCreateDestroyMonitor

/-- The params of the opening of a channel with a peer. -/
def Opens (params : Object) (n : NodeId) : Prop :=
  ∃ payload, params.index "channel_opened" = .ok payload ∧ Node payload "id" n

/-- What `on_channel_opened` should do with `params`. -/
structure OpenedContained (s s' : State NodeId) (params : Object) : Prop where
  unchanged : (¬∃ n, Opens params n) → s' = s
  carried   : ∀ n, Opens params n → n ∈ s'.channeled
    ∧ s'.acts = s.acts ++ if n ∈ s.channeled then [] else [⟨n, true⟩]

/-- The id is a string, and if it is none of a node then the params can be logged. -/
def OpenedFits (params : Object) : Prop :=
  ∃ payload id, params.index "channel_opened" = .ok payload ∧ Text payload "id" id
    ∧ (NodeId.validString id = true ∨ params.prints = true)

theorem readOpened_iff {params : Object} {n : NodeId} :
    readOpened params = .ok n ↔ Opens params n := by
  unfold readOpened Opens
  simp only [bind_eq_ok, lift_ok_iff, nodeId_iff]

theorem readOpened_rangeError_iff {params : Object} :
    readOpened params = .error .rangeError
      ↔ ∃ payload id, params.index "channel_opened" = .ok payload ∧ Text payload "id" id
        ∧ NodeId.validString id = false := by
  unfold readOpened
  rw [bind_error_iff, or_iff_right (lift_ne_rangeError _)]
  simp only [lift_ok_iff, nodeId_rangeError_iff, exists_and_left]

theorem Opens.unique {params : Object} {n n' : NodeId} (h : Opens params n)
    (h' : Opens params n') : n = n' :=
  Except.ok.inj ((readOpened_iff.mpr h).symm.trans (readOpened_iff.mpr h'))

theorem announced_carries (s : State NodeId) (n : NodeId) :
    n ∈ (announced s n).channeled
      ∧ (announced s n).acts = s.acts ++ if n ∈ s.channeled then [] else [⟨n, true⟩] := by
  unfold announced
  by_cases hn : n ∈ s.channeled
  · rw [if_pos hn, if_pos hn, List.append_nil]
    exact ⟨hn, rfl⟩
  · rw [if_neg hn, if_neg hn]
    exact ⟨List.mem_cons_self, rfl⟩

/-- **SPEC** of `on_channel_opened`. -/
theorem onChannelOpened_ok_iff {s s' : State NodeId} {params : Object} :
    onChannelOpened s params = .ok s' ↔ (∃ n, readOpened params = .ok n ∧ s' = announced s n)
      ∨ readOpened params = .error .rangeError ∧ params.prints = true ∧ s' = s := by
  unfold onChannelOpened
  refine handler_ok_iff ?_ ?_
  · intro n hread
    rw [hread]
  · intro e hread
    rw [hread]

/-- **HEADLINE**: `channel_opened` is contained exactly if its id is a string, and
    one that is no node id stands in params that can be logged. -/
theorem onChannelOpened_iff (s : State NodeId) (params : Object) :
    (∃ s', onChannelOpened s params = .ok s' ∧ OpenedContained s s' params)
      ↔ OpenedFits params := by
  constructor
  · rintro ⟨s', hs', -⟩
    rcases onChannelOpened_ok_iff.mp hs' with ⟨n, hread, -⟩ | ⟨hread, hprints, -⟩
    · obtain ⟨payload, hpayload, hn⟩ := readOpened_iff.mp hread
      obtain ⟨id, hid, hvalid⟩ := hn.valid
      exact ⟨payload, id, hpayload, hid, .inl hvalid⟩
    · obtain ⟨payload, id, hpayload, hid, -⟩ := readOpened_rangeError_iff.mp hread
      exact ⟨payload, id, hpayload, hid, .inr hprints⟩
  · rintro ⟨payload, id, hpayload, hid, hfits⟩
    -- a text that is no node id is the one thing the `catch` is for
    by_cases hvalid : NodeId.validString id = true
    · obtain ⟨n, hn⟩ := hid.node hvalid
      have hopens : Opens params n := ⟨payload, hpayload, hn⟩
      refine ⟨announced s n, onChannelOpened_ok_iff.mpr (.inl ⟨n, readOpened_iff.mpr hopens, rfl⟩),
        fun hno => absurd ⟨n, hopens⟩ hno, ?_⟩
      intro n' hopens'
      cases hopens.unique hopens'
      exact announced_carries s n
    · have hread := readOpened_rangeError_iff.mpr
        ⟨payload, id, hpayload, hid, Bool.eq_false_iff.mpr hvalid⟩
      refine ⟨s, onChannelOpened_ok_iff.mpr (.inr ⟨hread, hfits.resolve_left hvalid, rfl⟩),
        fun _ => rfl, ?_⟩
      intro n hopens
      exact nomatch hread.symm.trans (readOpened_iff.mpr hopens)

/-! ## `channel_state_changed` -/

/-- The params of the change of a channel; two of the fields may be missing. -/
def Changes (params : Object) (c : StateChange NodeId) : Prop :=
  ∃ payload, params.index "channel_state_changed" = .ok payload ∧ Node payload "peer_id" c.peer
    ∧ ∃ channelId oldState newState, OptionalText payload "channel_id" channelId
      ∧ OptionalText payload "old_state" oldState ∧ Text payload "new_state" newState
      ∧ c = ⟨c.peer, ofBytes channelId, channelId ≠ [], ofBytes oldState, ofBytes newState⟩

/-- The change closes what its peer is channeled by. -/
def Destroys (s : State NodeId) (c : StateChange NodeId) : Prop :=
  c.leaving = true ∧ ¬(c.named = true ∧ hasOpen (c.view s.openChannels) c.peer = true)
    ∧ c.peer ∈ s.channeled

instance (s : State NodeId) (c : StateChange NodeId) : Decidable (Destroys s c) :=
  inferInstanceAs (Decidable (_ ∧ _ ∧ _))

/-- What `on_channel_state_changed` should do with `params`. -/
structure ChangedContained (s s' : State NodeId) (params : Object) : Prop where
  unchanged : (¬∃ c, Changes params c) → s' = s
  carried   : ∀ c, Changes params c → s'.openChannels = c.view s.openChannels
    ∧ s'.acts = s.acts ++ if Destroys s c then [⟨c.peer, false⟩] else []

/-- The peer is a string, and either one of a node, with the other fields well-formed,
    or none, and then the params can be logged. -/
def ChangedFits (params : Object) : Prop :=
  ∃ payload id, params.index "channel_state_changed" = .ok payload ∧ Text payload "peer_id" id
    ∧ (NodeId.validString id = true ∧ (∃ t, OptionalText payload "channel_id" t)
        ∧ (∃ t, OptionalText payload "old_state" t) ∧ (∃ t, Text payload "new_state" t)
      ∨ NodeId.validString id = false ∧ params.prints = true)

theorem readStateChanged_iff {params : Object} {c : StateChange NodeId} :
    readStateChanged params = .ok c ↔ Changes params c := by
  unfold readStateChanged Changes
  constructor
  · intro h
    obtain ⟨payload, hpayload, h⟩ := bind_eq_ok.mp h
    obtain ⟨n, hn, h⟩ := bind_eq_ok.mp h
    obtain ⟨channelId, hchannel, h⟩ := bind_eq_ok.mp h
    obtain ⟨oldState, hold, h⟩ := bind_eq_ok.mp h
    obtain ⟨newState, hnew, h⟩ := bind_eq_ok.mp h
    cases h
    exact ⟨payload, lift_ok_iff.mp hpayload, nodeId_iff.mp hn, channelId, oldState, newState,
      optionalText_iff.mp hchannel, optionalText_iff.mp hold, text_iff.mp hnew, rfl⟩
  · rintro ⟨payload, hpayload, hn, channelId, oldState, newState, hchannel, hold, hnew, hc⟩
    rw [hc]
    exact bind_eq_ok.mpr ⟨payload, lift_ok_iff.mpr hpayload, bind_eq_ok.mpr
      ⟨c.peer, nodeId_iff.mpr hn, bind_eq_ok.mpr ⟨channelId, optionalText_iff.mpr hchannel,
        bind_eq_ok.mpr ⟨oldState, optionalText_iff.mpr hold, bind_eq_ok.mpr
          ⟨newState, text_iff.mpr hnew, rfl⟩⟩⟩⟩⟩

theorem readStateChanged_rangeError_iff {params : Object} :
    readStateChanged params = .error .rangeError
      ↔ ∃ payload id, params.index "channel_state_changed" = .ok payload
        ∧ Text payload "peer_id" id ∧ NodeId.validString id = false := by
  unfold readStateChanged
  rw [bind_error_iff, or_iff_right (lift_ne_rangeError _)]
  simp only [lift_ok_iff, exists_and_left]
  refine exists_congr fun payload => and_congr_right fun _ => ?_
  -- after the peer nothing throws a `runtime_error`
  rw [bind_error_iff, nodeId_rangeError_iff, or_iff_left]
  rintro ⟨n, -, h⟩
  revert h
  exact bind_ne_rangeError optionalText_ne_rangeError fun _ =>
    bind_ne_rangeError optionalText_ne_rangeError fun _ =>
    bind_ne_rangeError text_ne_rangeError nofun

theorem Changes.unique {params : Object} {c c' : StateChange NodeId} (h : Changes params c)
    (h' : Changes params c') : c = c' :=
  Except.ok.inj ((readStateChanged_iff.mpr h).symm.trans (readStateChanged_iff.mpr h'))

theorem onChannelStateChanged_acts (s : State NodeId) (c : StateChange NodeId) :
    (onChannelStateChanged s c).acts
      = s.acts ++ if Destroys s c then [⟨c.peer, false⟩] else [] := by
  unfold onChannelStateChanged
  by_cases hleaving : c.leaving = true
  · by_cases hopen : c.named = true ∧ hasOpen (c.view s.openChannels) c.peer = true
    · rw [if_neg (fun h : Destroys s c => h.2.1 hopen)]
      simp [hleaving, hopen]
    · by_cases hch : c.peer ∈ s.channeled
      · have hdestroys : Destroys s c := ⟨hleaving, hopen, hch⟩
        rw [if_pos hdestroys]
        simp [hleaving, hopen, hch, destruction]
      · rw [if_neg (fun h : Destroys s c => hch h.2.2)]
        simp [hleaving, hopen, hch]
  · rw [if_neg (fun h : Destroys s c => hleaving h.1)]
    simp [hleaving]

/-- **SPEC** of `on_channel_state_changed`. -/
theorem onStateChanged_ok_iff {s s' : State NodeId} {params : Object} :
    onStateChanged s params = .ok s'
      ↔ (∃ c, readStateChanged params = .ok c ∧ s' = onChannelStateChanged s c)
        ∨ readStateChanged params = .error .rangeError ∧ params.prints = true ∧ s' = s := by
  unfold onStateChanged
  refine handler_ok_iff ?_ ?_
  · intro c hread
    rw [hread]
  · intro e hread
    rw [hread]

/-- **HEADLINE**: `channel_state_changed` is contained exactly if its fields are
    well-formed, or its peer is a string that is no node id in params that can be
    logged. -/
theorem onStateChanged_iff (s : State NodeId) (params : Object) :
    (∃ s', onStateChanged s params = .ok s' ∧ ChangedContained s s' params)
      ↔ ChangedFits params := by
  constructor
  · rintro ⟨s', hs', -⟩
    rcases onStateChanged_ok_iff.mp hs' with ⟨c, hread, -⟩ | ⟨hread, hprints, -⟩
    · obtain ⟨payload, hpayload, hn, channelId, oldState, newState, hchannel, hold, hnew, -⟩ :=
        readStateChanged_iff.mp hread
      obtain ⟨id, hid, hvalid⟩ := hn.valid
      exact ⟨payload, id, hpayload, hid,
        .inl ⟨hvalid, ⟨channelId, hchannel⟩, ⟨oldState, hold⟩, ⟨newState, hnew⟩⟩⟩
    · obtain ⟨payload, id, hpayload, hid, hvalid⟩ := readStateChanged_rangeError_iff.mp hread
      exact ⟨payload, id, hpayload, hid, .inr ⟨hvalid, hprints⟩⟩
  · rintro ⟨payload, id, hpayload, hid, ⟨hvalid, ⟨channelId, hchannel⟩, ⟨oldState, hold⟩,
      ⟨newState, hnew⟩⟩ | ⟨hvalid, hprints⟩⟩
    · obtain ⟨n, hn⟩ := hid.node hvalid
      obtain ⟨c, hchanges⟩ : ∃ c, Changes params c :=
        ⟨⟨n, ofBytes channelId, channelId ≠ [], ofBytes oldState, ofBytes newState⟩, payload,
          hpayload, hn, channelId, oldState, newState, hchannel, hold, hnew, rfl⟩
      refine ⟨onChannelStateChanged s c,
        onStateChanged_ok_iff.mpr (.inl ⟨c, readStateChanged_iff.mpr hchanges, rfl⟩),
        fun hno => absurd ⟨c, hchanges⟩ hno, ?_⟩
      intro c' hchanges'
      cases hchanges.unique hchanges'
      exact ⟨(onChannelStateChanged_frame s c).1, onChannelStateChanged_acts s c⟩
    · have hread := readStateChanged_rangeError_iff.mpr ⟨payload, id, hpayload, hid, hvalid⟩
      refine ⟨s, onStateChanged_ok_iff.mpr (.inr ⟨hread, hprints, rfl⟩), fun _ => rfl, ?_⟩
      intro c hchanges
      exact nomatch hread.symm.trans (readStateChanged_iff.mpr hchanges)

end ChannelCreateDestroyMonitor

/-! ## The broadcast -/

/-- The subscriber of `Msg::Notification`. -/
def ForwardFeeMonitor.onNotification (s : ForwardFeeMonitor.State) (notification : String)
    (params : Object) : Except Exc ForwardFeeMonitor.State :=
  if notification ≠ "forward_event" then .ok s else onForwardEvent s params

/-- The subscriber of `Msg::Notification`, to the end of the wait for `initted`. -/
def ChannelCreateDestroyMonitor.onNotification (s : ChannelCreateDestroyMonitor.State NodeId)
    (notification : String) (params : Object) :
    Except Exc (ChannelCreateDestroyMonitor.State NodeId) :=
  if notification = "channel_opened" then onChannelOpened s params
  else if notification = "channel_state_changed" then onStateChanged s params
  else .ok s

namespace Notification

/-- The two monitors on the bus. -/
structure Monitors where
  forwards : ForwardFeeMonitor.State
  channels : ChannelCreateDestroyMonitor.State NodeId

/-- At the start. -/
def Monitors.init : Monitors := ⟨⟨[]⟩, ChannelCreateDestroyMonitor.State.init⟩

/-- `bus.raise(Msg::Notification{…})`: what one subscriber throws is thrown on. -/
def deliver (m : Monitors) (notification : String) (params : Object) : Except Exc Monitors := do
  let forwards ← ForwardFeeMonitor.onNotification m.forwards notification params
  let channels ← ChannelCreateDestroyMonitor.onNotification m.channels notification params
  return ⟨forwards, channels⟩

/-- The notifications the monitors have manifested. -/
inductive Kind where
  | forwardEvent
  | channelOpened
  | channelStateChanged

def Kind.name : Kind → String
  | .forwardEvent        => "forward_event"
  | .channelOpened       => "channel_opened"
  | .channelStateChanged => "channel_state_changed"

/-- What the monitors should do with `params`; the one that is not meant does nothing. -/
def Contained (m m' : Monitors) (params : Object) : Kind → Prop
  | .forwardEvent =>
      ForwardFeeMonitor.Contained m.forwards m'.forwards params ∧ m'.channels = m.channels
  | .channelOpened =>
      ChannelCreateDestroyMonitor.OpenedContained m.channels m'.channels params
        ∧ m'.forwards = m.forwards
  | .channelStateChanged =>
      ChannelCreateDestroyMonitor.ChangedContained m.channels m'.channels params
        ∧ m'.forwards = m.forwards

/-- The params that are contained. -/
def Fits (params : Object) : Kind → Prop
  | .forwardEvent =>
      ForwardFeeMonitor.Ignored params ∨ ∃ t, ForwardFeeMonitor.TellsIn IsShortAmount params t
  | .channelOpened       => ChannelCreateDestroyMonitor.OpenedFits params
  | .channelStateChanged => ChannelCreateDestroyMonitor.ChangedFits params

theorem deliver_ok_iff {m m' : Monitors} {notification : String} {params : Object} :
    deliver m notification params = .ok m'
      ↔ ForwardFeeMonitor.onNotification m.forwards notification params = .ok m'.forwards
        ∧ ChannelCreateDestroyMonitor.onNotification m.channels notification params
          = .ok m'.channels := by
  constructor
  · intro h
    obtain ⟨forwards, hforwards, h⟩ := bind_eq_ok.mp h
    obtain ⟨channels, hchannels, h⟩ := bind_eq_ok.mp h
    cases h
    exact ⟨hforwards, hchannels⟩
  · rintro ⟨hforwards, hchannels⟩
    exact bind_eq_ok.mpr ⟨_, hforwards, bind_eq_ok.mpr ⟨_, hchannels, rfl⟩⟩

theorem contained_of_fits (m : Monitors) {kind : Kind} {params : Object} (h : Fits params kind) :
    ∃ m', deliver m kind.name params = .ok m' ∧ Contained m m' params kind := by
  simp only [deliver_ok_iff]
  cases kind with
  | forwardEvent =>
      obtain ⟨s', hs', hcontained⟩ :=
        (ForwardFeeMonitor.onForwardEvent_iff m.forwards params).mpr h
      exact ⟨⟨s', m.channels⟩, ⟨hs', rfl⟩, hcontained, rfl⟩
  | channelOpened =>
      obtain ⟨s', hs', hcontained⟩ :=
        (ChannelCreateDestroyMonitor.onChannelOpened_iff m.channels params).mpr h
      exact ⟨⟨m.forwards, s'⟩, ⟨rfl, hs'⟩, hcontained, rfl⟩
  | channelStateChanged =>
      obtain ⟨s', hs', hcontained⟩ :=
        (ChannelCreateDestroyMonitor.onStateChanged_iff m.channels params).mpr h
      exact ⟨⟨m.forwards, s'⟩, ⟨rfl, hs'⟩, hcontained, rfl⟩

theorem fits_of_contained {m m' : Monitors} {kind : Kind} {params : Object}
    (hdeliver : deliver m kind.name params = .ok m') (h : Contained m m' params kind) :
    Fits params kind := by
  obtain ⟨hforwards, hchannels⟩ := deliver_ok_iff.mp hdeliver
  cases kind with
  | forwardEvent =>
      exact (ForwardFeeMonitor.onForwardEvent_iff m.forwards params).mp ⟨_, hforwards, h.1⟩
  | channelOpened =>
      exact (ChannelCreateDestroyMonitor.onChannelOpened_iff m.channels params).mp
        ⟨_, hchannels, h.1⟩
  | channelStateChanged =>
      exact (ChannelCreateDestroyMonitor.onStateChanged_iff m.channels params).mp
        ⟨_, hchannels, h.1⟩

/-- **HEADLINE**: a notification is contained exactly if its params fit. -/
theorem contained_iff (m : Monitors) (kind : Kind) (params : Object) :
    (∃ m', deliver m kind.name params = .ok m' ∧ Contained m m' params kind)
      ↔ Fits params kind := by
  constructor
  · rintro ⟨m', hdeliver, hcontained⟩
    exact fits_of_contained hdeliver hcontained
  · exact contained_of_fits m

/-- A settled forward with half an scid, an opening without an id, and a change of
    a channel without its new state. -/
def sampleParams : Kind → Object
  | .forwardEvent => some (.obj [("forward_event".toUTF8.toList, .obj
      [("in_channel".toUTF8.toList, .str "1x2".toUTF8.toList),
        ("out_channel".toUTF8.toList, .str "1x2x3".toUTF8.toList),
        ("fee_msat".toUTF8.toList, .prim "1".toUTF8.toList),
        ("out_msat".toUTF8.toList, .prim "1000".toUTF8.toList),
        ("status".toUTF8.toList, .str "settled".toUTF8.toList),
        ("received_time".toUTF8.toList, .prim "1".toUTF8.toList),
        ("resolved_time".toUTF8.toList, .prim "2".toUTF8.toList)])])
  | .channelOpened => some (.obj [("channel_opened".toUTF8.toList, .obj [])])
  | .channelStateChanged => some (.obj [("channel_state_changed".toUTF8.toList, .obj
      [("peer_id".toUTF8.toList, .str ForwardFeeMonitor.somePeer.toString)])])

/-- What is thrown. -/
def thrown {α : Type} : Except Exc α → Option Exc
  | .ok _    => none
  | .error e => some e

/-- Each of them goes through the `catch`. -/
theorem not_contained_sampleParams :
    thrown (deliver .init Kind.forwardEvent.name (sampleParams .forwardEvent))
        = some .invalidArgument
      ∧ thrown (deliver .init Kind.channelOpened.name (sampleParams .channelOpened))
        = some .typeError
      ∧ thrown (deliver .init Kind.channelStateChanged.name (sampleParams .channelStateChanged))
        = some .typeError
      ∧ ¬∀ (m : Monitors) (kind : Kind) (params : Object),
        ∃ m', deliver m kind.name params = .ok m' ∧ Contained m m' params kind := by
  have hopened : thrown (deliver .init Kind.channelOpened.name (sampleParams .channelOpened))
      = some .typeError := by decide +kernel
  refine ⟨by decide +kernel, hopened, by decide +kernel, ?_⟩
  intro h
  obtain ⟨m', hm', -⟩ := h .init .channelOpened (sampleParams .channelOpened)
  rw [hm'] at hopened
  exact nomatch hopened

/-! ## Runs -/

/-- Notifications one after another. -/
def deliverAll (m : Monitors) (ns : List (Kind × Object)) : Except Exc Monitors :=
  ns.foldlM (fun m n => deliver m n.1.name n.2) m

/-- The forward is what the params of one of the notifications tell. -/
def Heard (ns : List (Kind × Object)) (f : ForwardFeeMonitor.Forward) : Prop :=
  ∃ params t, (Kind.forwardEvent, params) ∈ ns
    ∧ ForwardFeeMonitor.TellsIn IsAmount params t ∧ f.Carries t

/-- What is contained adds what was heard. -/
theorem Contained.heard {m m' : Monitors} {params : Object} {kind : Kind}
    (h : Contained m m' params kind) :
    ∀ f ∈ m'.forwards.waiting, f ∈ m.forwards.waiting ∨ Heard [(kind, params)] f := by
  intro f hf
  cases kind with
  | forwardEvent =>
      by_cases htells : ∃ t, ForwardFeeMonitor.TellsIn IsAmount params t
      · obtain ⟨t, ht⟩ := htells
        obtain ⟨f', hwaiting, hcarries⟩ := h.1.carried t ht
        rw [hwaiting, List.mem_append, List.mem_singleton] at hf
        rcases hf with hf | rfl
        · exact .inl hf
        · exact .inr ⟨params, t, List.mem_singleton_self _, ht, hcarries⟩
      · rw [h.1.unchanged htells] at hf
        exact .inl hf
  | channelOpened =>
      rw [h.2] at hf
      exact .inl hf
  | channelStateChanged =>
      rw [h.2] at hf
      exact .inl hf

/-- Where all params fit, the bus never fails, and no forward is waiting that was
    not heard. -/
theorem deliverAll_of_fits {ns : List (Kind × Object)} (hfits : ∀ n ∈ ns, Fits n.2 n.1)
    (m : Monitors) :
    ∃ m', deliverAll m ns = .ok m'
      ∧ ∀ f ∈ m'.forwards.waiting, f ∈ m.forwards.waiting ∨ Heard ns f := by
  induction ns generalizing m with
  | nil => exact ⟨m, rfl, fun _ => .inl⟩
  | cons n ns ih =>
      obtain ⟨m₁, hm₁, hcontained⟩ := contained_of_fits m (hfits n List.mem_cons_self)
      obtain ⟨m₂, hm₂, hheard⟩ := ih (fun n' hn' => hfits n' (List.mem_cons_of_mem _ hn')) m₁
      refine ⟨m₂, ?_, ?_⟩
      · unfold deliverAll
        rw [List.foldlM_cons, hm₁]
        exact hm₂
      · intro f hf
        rcases hheard f hf with hf | ⟨params, t, hmem, ht, hcarries⟩
        · rcases hcontained.heard f hf with hf | ⟨params, t, hmem, ht, hcarries⟩
          · exact .inl hf
          · refine .inr ⟨params, t, ?_, ht, hcarries⟩
            rw [List.mem_singleton.mp hmem]
            exact List.mem_cons_self
        · exact .inr ⟨params, t, List.mem_cons_of_mem _ hmem, ht, hcarries⟩

end Notification
