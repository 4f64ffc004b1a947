import IlsCompiler.Text.Bytes
import IlsCompiler.Text.Printable

namespace IlsCompiler.Text

/-!
# Quoted text

Text between double quotes in which every character that is not printable is
written as an escape. Stray bytes are written as two hexadecimal digits, other
characters as four or eight.
-/

/-- The lowest hexadecimal digits of a number, most significant first. -/
def hexDigits : Nat → Nat → List Char
  | 0, _ => []
  | count + 1, value =>
      hexDigits count (value / 16) ++ [Bytes.hexDigit (value % 16)]

/-- The quoted form of one character. -/
def quoteChar (value : Char) : List Char :=
  if value == '"' then
    ['\\', '"']
  else if value == '\\' then
    ['\\', '\\']
  else if isPrintable value then
    [value]
  else
    match value.toNat with
    | 7 => ['\\', 'a']
    | 8 => ['\\', 'b']
    | 9 => ['\\', 't']
    | 10 => ['\\', 'n']
    | 11 => ['\\', 'v']
    | 12 => ['\\', 'f']
    | 13 => ['\\', 'r']
    | code =>
        if code < 0x20 || code == 0x7F then
          '\\' :: 'x' :: hexDigits 2 code
        else if code < 0x10000 then
          '\\' :: 'u' :: hexDigits 4 code
        else
          '\\' :: 'U' :: hexDigits 8 code

/-- The quoted form of one decoded piece. -/
def quotePiece : Bytes.Piece → List Char
  | .char value => quoteChar value
  | .byte value => '\\' :: 'x' :: hexDigits 2 value.toNat

/-- A byte string between double quotes with escapes. -/
def quoteBytes (bytes : Bytes) : String :=
  String.ofList ('"' :: (Bytes.pieces bytes).flatMap quotePiece ++ ['"'])

/-- A string between double quotes with escapes. -/
def quote (text : String) : String :=
  String.ofList ('"' :: text.toList.flatMap quoteChar ++ ['"'])

/-!
## JSON strings

Strings as JSON writes them. Characters that have a meaning in HTML, and the line
separators that scripts do not allow in strings, are escaped too.
-/

/-- A character written as an escape of four hexadecimal digits. -/
def jsonEscape (value : Char) : List Char :=
  '\\' :: 'u' :: hexDigits 4 value.toNat

/-- How a character is written in a JSON string. -/
def jsonChar (value : Char) : List Char :=
  match value.toNat with
  | 0x22 => ['\\', '"']
  | 0x5C => ['\\', '\\']
  | 8 => ['\\', 'b']
  | 9 => ['\\', 't']
  | 10 => ['\\', 'n']
  | 12 => ['\\', 'f']
  | 13 => ['\\', 'r']
  | code =>
      if code < 0x20 || value == '<' || value == '>' || value == '&' ||
          code == 0x2028 || code == 0x2029 then
        jsonEscape value
      else
        [value]

/-- A string as JSON writes it. -/
def jsonString (text : String) : String :=
  String.ofList ('"' :: text.toList.flatMap jsonChar ++ ['"'])

/-- An object whose values are already written. -/
def jsonObject (fields : List (String × String)) : String :=
  "\x7b" ++
    ",".intercalate (fields.map fun field => jsonString field.1 ++ ":" ++ field.2) ++
    "\x7d"

end IlsCompiler.Text
