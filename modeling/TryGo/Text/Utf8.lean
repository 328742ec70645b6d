import TryGo.Text.Quoted

/-! Reading bytes as UTF-8. The first fault stops the reading, and it is reported with the
bytes that it spans and the reason. A fault spans the bytes of the broken sequence that
could still have begun a character. -/
namespace TryGo.Text

/-- Why some bytes are not UTF-8. -/
inductive Utf8Reason where
  | startByte
  | continuationByte
  | endOfData
deriving DecidableEq

def Utf8Reason.message : Utf8Reason → String
  | .startByte => "invalid start byte"
  | .continuationByte => "invalid continuation byte"
  | .endOfData => "unexpected end of data"

/-- A fault: the offset of its first byte, that byte, the number of bytes, the reason. -/
structure Utf8Fault where
  offset : Nat
  byte : UInt8
  count : Nat
  reason : Utf8Reason
deriving DecidableEq

def Utf8Fault.message (fault : Utf8Fault) : String :=
  let place :=
    if fault.count == 1 then
      "byte 0x" ++ String.ofList (hexDigits 2 fault.byte.toNat) ++ " in position "
        ++ toString fault.offset
    else
      "bytes in position " ++ toString fault.offset ++ "-"
        ++ toString (fault.offset + fault.count - 1)
  "'utf-8' codec can't decode " ++ place ++ ": " ++ fault.reason.message

/-- A range of bytes, both ends included. -/
structure ByteRange where
  low : UInt8
  high : UInt8

def ByteRange.contains (range : ByteRange) (byte : UInt8) : Bool :=
  range.low ≤ byte && byte ≤ range.high

/-- The bytes that may follow a first byte, as a list of ranges, with the bits that the
first byte contributes. A byte that starts no character has none. -/
def followers? (byte : UInt8) : Option (Nat × List ByteRange) :=
  let tail : ByteRange := ⟨0x80, 0xBF⟩
  if byte < 0x80 then some (byte.toNat, [])
  else if byte < 0xC2 then none
  else if byte < 0xE0 then some (byte.toNat - 0xC0, [tail])
  else if byte == 0xE0 then some (0, [⟨0xA0, 0xBF⟩, tail])
  else if byte == 0xED then some (0xD, [⟨0x80, 0x9F⟩, tail])
  else if byte < 0xF0 then some (byte.toNat - 0xE0, [tail, tail])
  else if byte == 0xF0 then some (0, [⟨0x90, 0xBF⟩, tail, tail])
  else if byte < 0xF4 then some (byte.toNat - 0xF0, [tail, tail, tail])
  else if byte == 0xF4 then some (4, [⟨0x80, 0x8F⟩, tail, tail])
  else none

/-- Reads the bytes that follow a first byte. On success the answer is the code point and
the bytes left, on failure the reason and the number of bytes that were fine. -/
def followTail (code used : Nat) :
    List ByteRange → List UInt8 → Except (Utf8Reason × Nat) (Nat × List UInt8)
  | [], bytes => .ok (code, bytes)
  | _ :: _, [] => .error (.endOfData, used)
  | range :: ranges, byte :: bytes =>
      if range.contains byte then
        followTail (code * 64 + (byte.toNat - 0x80)) (used + 1) ranges bytes
      else .error (.continuationByte, used)

/-- Reads characters until the bytes end. Every step uses at least one byte, so as many
steps as there are bytes are enough. -/
def decodeFrom (offset : Nat) : Nat → List UInt8 → Except Utf8Fault (List Char)
  | 0, _ => .ok []
  | _, [] => .ok []
  | steps + 1, byte :: bytes =>
      match followers? byte with
      | none => .error ⟨offset, byte, 1, .startByte⟩
      | some (code, ranges) =>
          match followTail code 1 ranges bytes with
          | .error (reason, count) => .error ⟨offset, byte, count, reason⟩
          | .ok (code, rest) => do
              let chars ← decodeFrom (offset + 1 + ranges.length) steps rest
              return Char.ofNat code :: chars

/-- The characters that some bytes stand for, or the first fault. -/
def decodeUtf8 (bytes : List UInt8) : Except Utf8Fault (List Char) :=
  decodeFrom 0 bytes.length bytes

def encodeUtf8 (text : String) : List UInt8 := text.toUTF8.toList

/-- Every line end of the forms carriage return with newline and lone carriage return
becomes a newline. -/
def normalizeNewlines : List Char → List Char
  | [] => []
  | '\r' :: '\n' :: rest => '\n' :: normalizeNewlines rest
  | '\r' :: rest => '\n' :: normalizeNewlines rest
  | c :: rest => c :: normalizeNewlines rest

end TryGo.Text
