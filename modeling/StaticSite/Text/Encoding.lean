import StaticSite.Text.Numeral

/-!
# Encodings

From the bytes of a file to its text. A byte sequence that is no text is a `DecodeFault`, which
says where the first bad sequence lies and what is wrong with it. A codec can also fail in a way of
its own, as one that is asked for by a name that nobody knows.
-/

namespace StaticSite.Text

inductive DecodeFault
  | invalidStart (lead : UInt8) (position : Nat)
  /-- A sequence that began at `start` is broken by the byte at `stop`. -/
  | invalidContinuation (lead : UInt8) (start stop : Nat)
  /-- A sequence that began at `start` is cut off by the end of the text. -/
  | truncated (lead : UInt8) (start stop : Nat)
  | notAscii (byte : UInt8) (position : Nat)
  /-- What another codec finds wrong with the bytes from `start` to before `stop`. -/
  | foreign (encoding reason : Text) (lead : UInt8) (start stop : Nat)
  deriving DecidableEq, Repr

/-- How decoding fails: at bytes that are no text, or in another way. -/
inductive CodecFault
  | undecodable (fault : DecodeFault)
  | broken (kind message : Text)
  deriving DecidableEq, Repr

inductive Encoding
  | utf8
  /-- UTF-8 of which a leading byte order mark is no part of the text. -/
  | utf8Marked
  | ascii
  | latin1
  /-- Any other encoding, by what its codec makes of bytes. -/
  | other (codec : List UInt8 → Except CodecFault Text)

namespace DecodeFault

def encodingName : DecodeFault → Text
  | notAscii .. => "ascii"
  | foreign encoding .. => encoding
  | _ => "utf-8"

def reason : DecodeFault → Text
  | invalidStart .. => "invalid start byte"
  | invalidContinuation .. => "invalid continuation byte"
  | truncated .. => "unexpected end of data"
  | notAscii .. => "ordinal not in range(128)"
  | foreign _ reason .. => reason

/-- The first bad byte, its position, and the position after the bad sequence. -/
def extent : DecodeFault → UInt8 × Nat × Nat
  | invalidStart lead position => (lead, position, position + 1)
  | invalidContinuation lead start stop => (lead, start, stop)
  | truncated lead start stop => (lead, start, stop)
  | notAscii byte position => (byte, position, position + 1)
  | foreign _ _ lead start stop => (lead, start, stop)

def message (fault : DecodeFault) : Text :=
  let (byte, start, stop) := fault.extent
  "'" ++ fault.encodingName ++ "' codec can't decode " ++
    (if stop = start + 1 then
      "byte 0x" ++ hex 2 byte.toNat ++ " in position " ++ ofNat start
    else
      "bytes in position " ++ ofNat start ++ "-" ++ ofNat (stop - 1)) ++
    ": " ++ fault.reason

end DecodeFault

/-- A sequence of which the lead byte and perhaps some continuation bytes are read. -/
structure OpenSequence where
  lead : UInt8
  start : Nat
  /-- How many continuation bytes are still to come, less one. -/
  more : Nat
  /-- The bounds of the next continuation byte. -/
  low : UInt8
  high : UInt8
  code : Nat

/-- What a lead byte beyond ASCII opens: the bounds of the byte after it shut out overlong forms,
surrogates, and numbers above the last code point. -/
def openSequence? (lead : UInt8) (start : Nat) : Option OpenSequence :=
  let n := lead.toNat
  if n < 0xC2 then none
  else if n < 0xE0 then some ⟨lead, start, 0, 0x80, 0xBF, n - 0xC0⟩
  else if n < 0xF0 then
    some ⟨lead, start, 1, if n = 0xE0 then 0xA0 else 0x80, if n = 0xED then 0x9F else 0xBF, n - 0xE0⟩
  else if n < 0xF5 then
    some ⟨lead, start, 2, if n = 0xF0 then 0x90 else 0x80, if n = 0xF4 then 0x8F else 0xBF, n - 0xF0⟩
  else none

def decodeUtf8 : Nat → Option OpenSequence → List UInt8 → Except DecodeFault Text
  | _, none, [] => .ok []
  | position, some q, [] => .error (.truncated q.lead q.start position)
  | position, none, b :: bytes =>
      if b < 0x80 then (Char.ofNat b.toNat :: ·) <$> decodeUtf8 (position + 1) none bytes
      else match openSequence? b position with
        | none => .error (.invalidStart b position)
        | some q => decodeUtf8 (position + 1) (some q) bytes
  | position, some q, b :: bytes =>
      if q.low ≤ b ∧ b ≤ q.high then
        let code := q.code * 64 + b.toNat % 64
        match q.more with
        | 0 => (Char.ofNat code :: ·) <$> decodeUtf8 (position + 1) none bytes
        | more + 1 =>
            decodeUtf8 (position + 1) (some { q with more, low := 0x80, high := 0xBF, code }) bytes
      else .error (.invalidContinuation q.lead q.start position)

def decodeAscii : Nat → List UInt8 → Except DecodeFault Text
  | _, [] => .ok []
  | position, b :: bytes =>
      if b < 0x80 then (Char.ofNat b.toNat :: ·) <$> decodeAscii (position + 1) bytes
      else .error (.notAscii b position)

def byteOrderMark : List UInt8 := [0xEF, 0xBB, 0xBF]

/-- A text that is nothing but the beginning of a byte order mark is empty. Positions count from
after the mark. -/
def decodeUtf8Marked (bytes : List UInt8) : Except DecodeFault Text :=
  if bytes.isPrefixOf byteOrderMark then .ok []
  else if byteOrderMark.isPrefixOf bytes then decodeUtf8 0 none (bytes.drop 3)
  else decodeUtf8 0 none bytes

def Encoding.decode : Encoding → List UInt8 → Except CodecFault Text
  | utf8, bytes => (decodeUtf8 0 none bytes).mapError .undecodable
  | utf8Marked, bytes => (decodeUtf8Marked bytes).mapError .undecodable
  | ascii, bytes => (decodeAscii 0 bytes).mapError .undecodable
  | latin1, bytes => .ok (bytes.map fun b => Char.ofNat b.toNat)
  | other codec, bytes => codec bytes

def encodeUtf8 (s : Text) : List UInt8 := s.flatMap String.utf8EncodeChar

def unifyLineEnds : Text → Text
  | [] => []
  | '\r' :: '\n' :: s => '\n' :: unifyLineEnds s
  | c :: s => (if c = '\r' then '\n' else c) :: unifyLineEnds s

end StaticSite.Text
