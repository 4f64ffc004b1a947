import IlsCompiler.Text.Bytes
import IlsCompiler.Text.Basic
import IlsCompiler.Ty

namespace IlsCompiler

/-!
# The data section

Formats for printing, string constants and global variables.
-/

/-- A format that a value is printed with. -/
structure PrintFormat where
  name : String
  bytes : String
deriving DecidableEq, Repr

namespace PrintFormat

/-- The formats of the data section. -/
def all : List PrintFormat := [
  ⟨"strFormat", "\"%s\", 0"⟩,
  ⟨"intFormat", "\"%d\", 0"⟩,
  ⟨"charFormat", "\"%c\", 0"⟩,
  ⟨"strFormatNl", "\"%s\", 10, 0"⟩,
  ⟨"intFormatNl", "\"%d\", 10, 0"⟩,
  ⟨"charFormatNl", "\"%c\", 10, 0"⟩]

/-- The name of the format for values of a type, with or without a line end. -/
def nameFor? (type : Ty) (newline : Bool) : Option String :=
  let stem? : Option String :=
    match type with
    | .str => some "strFormat"
    | .char => some "charFormat"
    | .int => some "intFormat"
    | .bool => some "intFormat"
    | _ => none
  stem?.map fun stem => if newline then stem ++ "Nl" else stem

/-- The routine that prints. -/
def routine : String := "printf"

end PrintFormat

/-- A global variable in the data section; a zero-filled array gives only its length. -/
structure DataEntry where
  name : String
  directive : String
  init : String
  times : Int
deriving DecidableEq, Repr

namespace DataEntry

/-- The line of an entry. -/
def text (entry : DataEntry) : String :=
  if 0 < entry.times then
    entry.name ++ " times " ++ toString entry.times ++ " " ++ entry.directive ++ " 0"
  else
    entry.name ++ " " ++ entry.directive ++ " " ++ entry.init

/-- Characters split at every comma. -/
def splitCommas : List Char → List (List Char)
  | [] => [[]]
  | value :: rest =>
      if value = ',' then
        [] :: splitCommas rest
      else
        match splitCommas rest with
        | [] => [[value]]
        | part :: others => (value :: part) :: others

/-- Whether all elements of an initializer are zero. -/
def isZeroFilled (init : String) : Bool :=
  (splitCommas init.toList).all fun part => Text.trimChars part = ['0']

/-- The entry of a global variable. -/
def ofGlobal (name : String) (type : Ty) (value : String) : DataEntry :=
  let init := if value = "" then type.defaultText else value
  { name := name, directive := type.directive, init := init,
    times := if type.isArray && isZeroFilled init then type.length else 0 }

end DataEntry

namespace Backquoted

/-- The character that opens and closes a string in which escapes are read. -/
def quote : Char := Char.ofNat 96

/-- How a character is written in such a string. -/
def escapeChar (value : Char) : List Char :=
  if value = '\\' then ['\\', '\\']
  else if value = quote then ['\\', quote]
  else if value = '\n' then ['\\', 'n']
  else if value = '\t' then ['\\', 't']
  else if value = '\r' then ['\\', 'r']
  else if value.toNat = 0 then ['\\', '0']
  else [value]

/-- The contents of a string with escapes; stray bytes become replacement characters. -/
def escape (contents : Bytes) : String :=
  String.ofList ((Bytes.toChars contents).flatMap escapeChar)

/-- The string between its quotes. -/
def text (contents : Bytes) : String :=
  String.singleton quote ++ escape contents ++ String.singleton quote

end Backquoted

end IlsCompiler
