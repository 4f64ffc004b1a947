namespace IlsCompiler

/-!
# Byte strings

Source text, string contents, messages and files are sequences of bytes that
need not be UTF-8. This module holds the byte-string type and the reading of
bytes as characters: a byte that starts no well-formed UTF-8 sequence stands for
no character, and decoding goes on with the byte after it.
-/

/-- A sequence of bytes, the form of every text that a source file can reach. -/
abbrev Bytes := List UInt8

namespace Bytes

/-- The UTF-8 encoding of a string. -/
def ofString (text : String) : Bytes :=
  text.toUTF8.data.toList

/-- Whether a byte may follow the first byte of a multi-byte character. -/
def isContinuation (byte : UInt8) : Bool :=
  0x80 ≤ byte && byte ≤ 0xBF

/-- The six payload bits of a continuation byte. -/
def payload (byte : UInt8) : Nat :=
  byte.toNat % 64

/--
The character at the front of a byte string and how many bytes it takes. A front
byte that starts no well-formed character counts as one byte without a character.
-/
def leading : Bytes → Option Char × Nat
  | [] => (none, 1)
  | first :: rest =>
      if first < 0x80 then
        (some (Char.ofNat first.toNat), 1)
      else if 0xC2 ≤ first && first ≤ 0xDF then
        match rest with
        | second :: _ =>
            if isContinuation second then
              (some (Char.ofNat ((first.toNat - 0xC0) * 64 + payload second)), 2)
            else
              (none, 1)
        | [] => (none, 1)
      else if 0xE0 ≤ first && first ≤ 0xEF then
        match rest with
        | second :: third :: _ =>
            let least : UInt8 := if first == 0xE0 then 0xA0 else 0x80
            let greatest : UInt8 := if first == 0xED then 0x9F else 0xBF
            if least ≤ second && second ≤ greatest && isContinuation third then
              (some (Char.ofNat
                ((first.toNat - 0xE0) * 4096 + payload second * 64 + payload third)), 3)
            else
              (none, 1)
        | _ => (none, 1)
      else if 0xF0 ≤ first && first ≤ 0xF4 then
        match rest with
        | second :: third :: fourth :: _ =>
            let least : UInt8 := if first == 0xF0 then 0x90 else 0x80
            let greatest : UInt8 := if first == 0xF4 then 0x8F else 0xBF
            if least ≤ second && second ≤ greatest &&
                isContinuation third && isContinuation fourth then
              (some (Char.ofNat
                ((first.toNat - 0xF0) * 262144 + payload second * 4096 +
                  payload third * 64 + payload fourth)), 4)
            else
              (none, 1)
        | _ => (none, 1)
      else
        (none, 1)

/--
One piece of decoded text: a character, or a byte that belongs to none.
-/
inductive Piece where
  | char (value : Char)
  | byte (value : UInt8)
deriving DecidableEq, Repr

/-- Decode a byte string, skipping the given number of bytes already accounted for. -/
def piecesAfter : Nat → Bytes → List Piece
  | _, [] => []
  | skip + 1, _ :: rest => piecesAfter skip rest
  | 0, byte :: rest =>
      match leading (byte :: rest) with
      | (some value, width) => .char value :: piecesAfter (width - 1) rest
      | (none, _) => .byte byte :: piecesAfter 0 rest

/-- The pieces of a byte string in order. -/
def pieces (bytes : Bytes) : List Piece :=
  piecesAfter 0 bytes

/-- The character of a piece, if it is one. -/
def Piece.char? : Piece → Option Char
  | .char value => some value
  | .byte _ => none

/-- The characters of well-formed UTF-8, and nothing for any other byte string. -/
def toString? (bytes : Bytes) : Option String :=
  ((pieces bytes).mapM Piece.char?).map String.ofList

/-- The character that stands for a byte outside well-formed UTF-8. -/
def replacement : Char := Char.ofNat 0xFFFD

/-- The characters of a byte string, with stray bytes shown as the replacement character. -/
def toChars (bytes : Bytes) : List Char :=
  (pieces bytes).map fun piece => piece.char?.getD replacement

/-- A byte string as a string, with stray bytes shown as the replacement character. -/
def display (bytes : Bytes) : String :=
  String.ofList (toChars bytes)

/-- Bytes that are known to be ASCII, read as the characters of the same codes. -/
def ascii (bytes : Bytes) : String :=
  String.ofList (bytes.map fun byte => Char.ofNat byte.toNat)

/-- One lower-case hexadecimal digit. -/
def hexDigit (value : Nat) : Char :=
  if value < 10 then
    Char.ofNat (48 + value)
  else
    Char.ofNat (87 + value)

/-- Two lower-case hexadecimal digits for each byte. -/
def hex (bytes : Bytes) : String :=
  String.ofList (bytes.flatMap fun byte =>
    [hexDigit (byte.toNat / 16), hexDigit (byte.toNat % 16)])

/-- The value of a hexadecimal digit in either case. -/
def hexValue? (digit : Char) : Option Nat :=
  if '0' ≤ digit && digit ≤ '9' then
    some (digit.toNat - 48)
  else if 'a' ≤ digit && digit ≤ 'f' then
    some (digit.toNat - 87)
  else if 'A' ≤ digit && digit ≤ 'F' then
    some (digit.toNat - 55)
  else
    none

/-- Read pairs of hexadecimal digits. -/
def ofHexDigits? : List Char → Option Bytes
  | [] => some []
  | [_] => none
  | high :: low :: rest => do
      let highValue ← hexValue? high
      let lowValue ← hexValue? low
      let others ← ofHexDigits? rest
      return (highValue * 16 + lowValue).toUInt8 :: others

/-- Read a string of hexadecimal digits as bytes. -/
def ofHex? (text : String) : Option Bytes :=
  ofHexDigits? text.toList

/-- Byte strings joined with a separator between neighbours. -/
def join (separator : Bytes) (parts : List Bytes) : Bytes :=
  (parts.intersperse separator).flatten

end Bytes

/-- The bytes of a string. -/
instance : Coe String Bytes := ⟨Bytes.ofString⟩

end IlsCompiler
