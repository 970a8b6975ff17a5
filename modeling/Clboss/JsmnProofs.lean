import Clboss.DecimalProofs
import Mathlib.Data.List.Basic

/-! # `Jsmn` — the tokenizer and the parser with an exposed buffer

    `ParserExposedBuffer` cuts a byte stream into JSON data.  A hand-written
    automaton (`DatumIdentifier`) looks for the end of a datum; the bytes up to
    there are given to `jsmn`, which is compiled with `JSMN_STRICT` and
    `JSMN_PARENT_LINKS`.  Both see the bytes only, so they may disagree about
    where a datum ends.

    Positions and counts are natural numbers here, and those of the source as long
    as a datum has less than `2 ^ 31` bytes (`parse_init_lt`).  `toknext` is the
    number of tokens, and a token that is still open has no end. -/

namespace Jsmn

open Decimals (isDigit)

/-! ## `DatumIdentifier` -/

/-- `Jsmn::Detail::DatumIdentifier`. -/
structure DatumIdentifier where
  nested            : Nat
  inString          : Bool
  inStringBackslash : Bool
  finishedDatum     : Bool
deriving DecidableEq

namespace DatumIdentifier

/-- The constructor. -/
def init : DatumIdentifier := ⟨0, false, false, true⟩

/-- Set `finished_datum` by the nesting; its value says whether a datum ends. -/
def finishIfOutermost (d : DatumIdentifier) : DatumIdentifier × Bool :=
  ({ d with finishedDatum := d.nested = 0 }, d.nested = 0)

/-- The whitespace of `feed`, with `'\v'`. -/
def isSpace (c : UInt8) : Bool :=
  c = ' '.toUInt8 || c = '\t'.toUInt8 || c = '\n'.toUInt8 || c = '\r'.toUInt8 || c = 0x0b

/-- `feed`: true at the end of a datum. -/
def feed (d : DatumIdentifier) (c : UInt8) : DatumIdentifier × Bool :=
  if d.inStringBackslash then ({ d with inStringBackslash := false }, false)
  else if d.inString then
    if c = '\\'.toUInt8 then ({ d with inStringBackslash := true }, false)
    else if c = '"'.toUInt8 then finishIfOutermost { d with inString := false }
    else (d, false)
  else if c = '"'.toUInt8 then ({ d with inString := true, finishedDatum := false }, false)
  else if c = '\x7b'.toUInt8 ∨ c = '['.toUInt8 then
    ({ d with nested := d.nested + 1, finishedDatum := false }, false)
  else if c = '\x7d'.toUInt8 ∨ c = ']'.toUInt8 then
    finishIfOutermost { d with nested := d.nested - 1 }
  else if isSpace c then
    if d.finishedDatum then (d, false) else finishIfOutermost d
  else ({ d with finishedDatum := false }, false)

end DatumIdentifier

/-! ## `jsmn.h` -/

/-- `jsmntype_t`, of tokens that are filled. -/
inductive TokenType where
  | object
  | array
  | string
  | primitive
deriving DecidableEq

/-- `jsmntok_t`; its numbers are `int`s in the source, with `-1` for none. -/
structure Token where
  type   : TokenType
  start  : Nat
  stop   : Option Nat
  size   : Nat
  parent : Option Nat
deriving DecidableEq

/-- `jsmn_parser`, with the tokens it has allocated; `pos` is an `unsigned`. -/
structure Parser where
  pos      : Nat
  toksuper : Option Nat
  tokens   : List Token
deriving DecidableEq

/-- `jsmn_init`. -/
def Parser.init : Parser := ⟨0, none, []⟩

/-- What `jsmn_parse` returns: a count of tokens or an error. -/
inductive Status where
  | count (n : Nat)
  | nomem
  | inval
  | part
deriving DecidableEq

/-- The cases of the `switch` in `jsmn_parse`. -/
inductive Symbol where
  | opening (type : TokenType)
  | closing (type : TokenType)
  | quote
  | blank
  | colon
  | comma
  | primitive
  | unexpected
deriving DecidableEq

/-- JSON whitespace. -/
def isBlank (c : UInt8) : Bool :=
  c = '\t'.toUInt8 || c = '\r'.toUInt8 || c = '\n'.toUInt8 || c = ' '.toUInt8

/-- The case of a character. -/
def symbol (c : UInt8) : Symbol :=
  if c = '\x7b'.toUInt8 then .opening .object
  else if c = '['.toUInt8 then .opening .array
  else if c = '\x7d'.toUInt8 then .closing .object
  else if c = ']'.toUInt8 then .closing .array
  else if c = '"'.toUInt8 then .quote
  else if isBlank c then .blank
  else if c = ':'.toUInt8 then .colon
  else if c = ','.toUInt8 then .comma
  else if c = '-'.toUInt8 || isDigit c || c = 't'.toUInt8 || c = 'f'.toUInt8 || c = 'n'.toUInt8
    then .primitive
  else .unexpected

/-- The characters that end a primitive. -/
def isDelimiter (c : UInt8) : Bool :=
  isBlank c || c = ','.toUInt8 || c = ']'.toUInt8 || c = '\x7d'.toUInt8

/-- The loop of `jsmn_parse_primitive`: the length of the primitive. -/
def scanPrimitive : List UInt8 → Except Status Nat
  | []      => .error .part
  | c :: cs =>
      if c = 0 then .error .part
      else if isDelimiter c then .ok 0
      else if c < 32 ∨ 127 ≤ c then .error .inval
      else (scanPrimitive cs).map (· + 1)

def isHex (c : UInt8) : Bool :=
  isDigit c || (65 ≤ c && c ≤ 70) || (97 ≤ c && c ≤ 102)

/-- The escaped symbols other than `u`. -/
def isEscape (c : UInt8) : Bool :=
  c = '"'.toUInt8 || c = '/'.toUInt8 || c = '\\'.toUInt8 || c = 'b'.toUInt8 || c = 'f'.toUInt8
    || c = 'r'.toUInt8 || c = 'n'.toUInt8 || c = 't'.toUInt8

/-- The loop of `jsmn_parse_string`, after the opening quote: the length up to
    the closing one.  `hex` hexadecimal digits are still to come. -/
def scanString : Nat → List UInt8 → Except Status Nat
  | _, []           => .error .part
  | hex + 1, c :: cs =>
      if c = 0 then .error .part
      else if isHex c then (scanString hex cs).map (· + 1)
      else .error .inval
  | 0, [c]          => if c = '"'.toUInt8 then .ok 0 else .error .part
  | 0, c :: e :: cs =>
      if c = 0 then .error .part
      else if c = '"'.toUInt8 then .ok 0
      else if c = '\\'.toUInt8 then
        if isEscape e then (scanString 0 cs).map (· + 2)
        else if e = 'u'.toUInt8 then (scanString 4 cs).map (· + 2)
        else .error .inval
      else (scanString 0 (e :: cs)).map (· + 1)

/-- `tokens[toksuper].size++`, if there is a superior token. -/
def bump (toksuper : Option Nat) (tokens : List Token) : List Token :=
  match toksuper with
  | none   => tokens
  | some k => tokens.modify k (fun t => { t with size := t.size + 1 })

/-- The loop for a closing bracket: from token `i` up along the parents to the
    first open one.  `fuel` bounds the length of the way. -/
def closeToken (p : Parser) (type : TokenType) : Nat → Nat → Except Status Parser
  | 0, _        => .error .inval
  | fuel + 1, i =>
      match p.tokens[i]? with
      | none   => .error .inval
      | some t =>
          if t.stop = none then
            if t.type = type then
              .ok { p with
                pos := p.pos + 1
                toksuper := t.parent
                tokens := p.tokens.modify i (fun t => { t with stop := some (p.pos + 1) }) }
            else .error .inval
          else
            match t.parent with
            | none   =>
                if t.type ≠ type ∨ p.toksuper = none then .error .inval
                else .ok { p with pos := p.pos + 1 }
            | some j => closeToken p type fuel j

/-- The type of the superior token. -/
def Parser.superType (p : Parser) : Option TokenType :=
  p.toksuper.bind (fun k => (p.tokens[k]?).map Token.type)

/-- A primitive must not be the key of an object, nor follow the value of one. -/
def Parser.refusesPrimitive (p : Parser) : Bool :=
  match p.toksuper.bind (fun k => p.tokens[k]?) with
  | none   => false
  | some t => t.type = .object || (t.type = .string && t.size ≠ 0)

/-- One round of the loop of `jsmn_parse` at the character `c`; `room` says
    whether a token can be allocated.  An error leaves the parser at `c`. -/
def Parser.step (room : Bool) (js : List UInt8) (p : Parser) (c : UInt8) :
    Except Status Parser :=
  match symbol c with
  | .opening type =>
      if room = false then .error .nomem
      else if p.superType = some .object then .error .inval
      else .ok {
        pos := p.pos + 1
        toksuper := some p.tokens.length
        tokens := bump p.toksuper p.tokens ++ [⟨type, p.pos, none, 0, p.toksuper⟩] }
  | .closing type =>
      if p.tokens = [] then .error .inval
      else closeToken p type p.tokens.length (p.tokens.length - 1)
  | .quote =>
      match scanString 0 (js.drop (p.pos + 1)) with
      | .error e => .error e
      | .ok n    =>
          if room = false then .error .nomem
          else .ok { p with
            pos := p.pos + n + 2
            tokens := bump p.toksuper
              (p.tokens ++ [⟨.string, p.pos + 1, some (p.pos + 1 + n), 0, p.toksuper⟩]) }
  | .blank => .ok { p with pos := p.pos + 1 }
  | .colon =>
      .ok { p with
        pos := p.pos + 1
        toksuper := if p.tokens = [] then none else some (p.tokens.length - 1) }
  | .comma =>
      .ok { p with
        pos := p.pos + 1
        toksuper :=
          match p.toksuper.bind (fun k => p.tokens[k]?) with
          | none   => p.toksuper
          | some t => if t.type = .array ∨ t.type = .object then p.toksuper else t.parent }
  | .primitive =>
      if p.refusesPrimitive then .error .inval
      else
        match scanPrimitive (js.drop p.pos) with
        | .error e => .error e
        | .ok n    =>
            if room = false then .error .nomem
            else .ok { p with
              pos := p.pos + n
              tokens := bump p.toksuper
                (p.tokens ++ [⟨.primitive, p.pos, some (p.pos + n), 0, p.toksuper⟩]) }
  | .unexpected => .error .inval

/-- After the loop: an open token means that there is more to come. -/
def Parser.status (p : Parser) : Status :=
  if p.tokens.any (fun t => t.stop = none) then .part else .count p.tokens.length

/-- The loop of `jsmn_parse`, with at most `fuel` rounds. -/
def Parser.loop (room : Parser → Bool) (js : List UInt8) : Nat → Parser → Status × Parser
  | 0, p        => (p.status, p)
  | fuel + 1, p =>
      match js[p.pos]? with
      | none   => (p.status, p)
      | some c =>
          if c = 0 then (p.status, p)
          else
            match p.step (room p) js c with
            | .error e => (e, p)
            | .ok p'   => Parser.loop room js fuel p'

/-- `jsmn_parse` into `numTokens` tokens.  Every round reads a character, so
    there are no more rounds than characters. -/
def Parser.parse (numTokens : Nat) (js : List UInt8) (p : Parser) : Status × Parser :=
  p.loop (fun p => p.tokens.length < numTokens) js (js.length - p.pos)

/-! ## `ParserExposedBuffer` -/

/-- `Detail::ParseResult`. -/
structure ParseResult where
  origString : List UInt8
  tokens     : List Token
deriving DecidableEq

/-- `ParserExposedBuffer::Impl`; `buffer` is its loaded part, so `load_idx` is
    its length. -/
structure Impl where
  buffer     : List UInt8
  startIdx   : Nat
  endIdx     : Nat
  base       : Parser
  numTokens  : Nat
  datumEnder : DatumIdentifier
deriving DecidableEq

/-- The constructor. -/
def Impl.init : Impl := ⟨[], 0, 0, .init, 4, .init⟩

/-- `load_buffer`, of the bytes that `f` wrote. -/
def Impl.loadBuffer (s : Impl) (piece : List UInt8) : Impl :=
  { s with buffer := s.buffer ++ piece }

/-- `can_parse_buffer`. -/
def Impl.canParseBuffer (s : Impl) : Bool := s.endIdx ≠ s.buffer.length

/-- What a call of `try_parse` comes to; `nothing` is the `nullptr`. -/
inductive Tried where
  | object (result : ParseResult)
  | nothing
  | parseError (text : List UInt8) (pos : Nat)
  | assertFailed
deriving DecidableEq

/-- Feed bytes until a datum ends; the number of bytes, if one does. -/
def feedUntil (d : DatumIdentifier) : List UInt8 → DatumIdentifier × Option Nat
  | []      => (d, none)
  | c :: cs =>
      if (d.feed c).2 then ((d.feed c).1, some 1)
      else ((feedUntil (d.feed c).1 cs).1, (feedUntil (d.feed c).1 cs).2.map (· + 1))

/-- `&buffer[start_idx]` up to `end_idx`. -/
def Impl.region (s : Impl) : List UInt8 := (s.buffer.drop s.startIdx).take (s.endIdx - s.startIdx)

/-- `jsmn_parse`, again with more tokens after each `JSMN_ERROR_NOMEM`. -/
def Impl.tokenize : Nat → Impl → Status × Impl
  | 0, s        => (.nomem, s)
  | fuel + 1, s =>
      match s.base.parse s.numTokens s.region with
      | (.nomem, p) => Impl.tokenize fuel { s with base := p, numTokens := s.numTokens * 2 + 1 }
      | (st, p)     => (st, { s with base := p })

/-- The part of `try_parse` after a datum was found. -/
def Impl.parseRegion (s : Impl) : Tried × Impl :=
  if s.startIdx = s.endIdx then (.nothing, s)
  else
    match s.tokenize (s.region.length + 2) with
    | (.count 0, s') =>
        let s'' := { s' with startIdx := s'.startIdx + s'.base.pos, base := .init }
        if s'.endIdx = s'.buffer.length then (.nothing, s'') else (.assertFailed, s'')
    | (.count (_ + 1), s') =>
        (.object ⟨s'.region.take s'.base.pos, s'.base.tokens⟩,
          { s' with startIdx := s'.startIdx + s'.base.pos, base := .init })
    | (.inval, s') => (.parseError s'.region s'.base.pos, s')
    | (.part, s')  =>
        if s'.endIdx = s'.buffer.length then (.nothing, s') else (.assertFailed, s')
    | (.nomem, s') => (.assertFailed, s')

/-- `try_parse`. -/
def Impl.tryParse (s : Impl) : Tried × Impl :=
  if s.endIdx < s.buffer.length then
    match feedUntil s.datumEnder (s.buffer.drop s.endIdx) with
    | (d, none)   => (.nothing, { s with datumEnder := d, endIdx := s.buffer.length })
    | (d, some n) => Impl.parseRegion { s with datumEnder := d, endIdx := s.endIdx + n }
  else s.parseRegion

/-- `move_loaded`. -/
def Impl.moveLoaded (s : Impl) : Impl :=
  if s.buffer.length - s.startIdx > s.startIdx then s
  else { s with
    buffer := s.buffer.drop s.startIdx
    endIdx := s.endIdx - s.startIdx
    startIdx := 0 }

/-- What a call of `parse_buffer` comes to. -/
inductive Parsed where
  | objects (results : List ParseResult)
  | parseError (text : List UInt8) (pos : Nat)
  | assertFailed
deriving DecidableEq

/-- The loop of `parse_buffer`: each object is at least one byte long, so
    `fuel` rounds do for less than `fuel` bytes. -/
def Impl.collect : Nat → List ParseResult → Impl → Parsed × Impl
  | 0, _, s          => (.assertFailed, s)
  | fuel + 1, ret, s =>
      match s.tryParse with
      | (.object r, s')          => Impl.collect fuel (ret ++ [r]) s'
      | (.nothing, s')           =>
          if s'.canParseBuffer then (.assertFailed, s') else (.objects ret, s'.moveLoaded)
      | (.parseError text pos, s') => (.parseError text pos, s')
      | (.assertFailed, s')      => (.assertFailed, s')

/-- `parse_buffer`. -/
def Impl.parseBuffer (s : Impl) : Parsed × Impl :=
  if s.canParseBuffer then s.collect (s.buffer.length + 1) [] else (.objects [], s)

/-! ## A stream in pieces -/

/-- How feeding a stream ends. -/
inductive Ending where
  | fine
  | parseError (text : List UInt8) (pos : Nat)
  | aborted
deriving DecidableEq

/-- Load and parse piece after piece, up to an exception: all results returned,
    and how it ended. -/
def Impl.feedPieces (s : Impl) : List (List UInt8) → List ParseResult × Ending
  | []              => ([], .fine)
  | piece :: pieces =>
      match (s.loadBuffer piece).parseBuffer with
      | (.objects rs, s')          =>
          (rs ++ (s'.feedPieces pieces).1, (s'.feedPieces pieces).2)
      | (.parseError text pos, _)  => ([], .parseError text pos)
      | (.assertFailed, _)         => ([], .aborted)

end Jsmn
