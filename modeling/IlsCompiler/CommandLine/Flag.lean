import IlsCompiler.Text.Quoted

namespace IlsCompiler.CommandLine

/-!
# Flags

A flag has a long name, and some have a letter as well. Its value is a text, a truth
value or a number; the value of a truth flag may be left out.
-/

/-- The value of a flag. -/
inductive FlagValue where
  | text (value : String)
  | truth (value : Bool)
  | integer (value : Int)
deriving DecidableEq, Repr, Inhabited

/-- A flag with the value it has when it is not given. -/
structure Flag where
  name : String
  letter : Option Char := none
  default : FlagValue
deriving DecidableEq, Repr, Inhabited

/-- Why a text is no value. -/
inductive ValueFault where
  | malformed
  | outOfRange
deriving DecidableEq, Repr

/-- How a fault is told. -/
def ValueFault.message : ValueFault → String
  | .malformed => "invalid syntax"
  | .outOfRange => "value out of range"

namespace FlagValue

/-- The words for truth values. -/
def truthWords : List (String × Bool) := [
  ("1", true), ("t", true), ("T", true), ("TRUE", true), ("true", true), ("True", true),
  ("0", false), ("f", false), ("F", false), ("FALSE", false), ("false", false), ("False", false)]

/-- A truth value from its word. -/
def readTruth (text : String) : Except ValueFault Bool :=
  match truthWords.lookup text with
  | some value => .ok value
  | none => .error .malformed

/-- The value of a digit, whatever the base. -/
def digitValue? (digit : Char) : Option Nat :=
  if digit.isDigit then
    some (digit.toNat - 48)
  else if digit.isAlpha then
    some (digit.toLower.toNat - 87)
  else
    none

/-- The base that a number is written in, and its digits. -/
def baseAndDigits : List Char → Nat × List Char
  | '0' :: mark :: first :: rest =>
      match mark.toLower with
      | 'b' => (2, first :: rest)
      | 'o' => (8, first :: rest)
      | 'x' => (16, first :: rest)
      | _ => (8, mark :: first :: rest)
  | '0' :: rest => (8, rest)
  | digits => (10, digits)

/--
The value of digits behind a value; underscores do not count. A value beyond the
bound is out of range, whatever comes behind it.
-/
def magnitude (base bound : Nat) : Nat → List Char → Except ValueFault Nat
  | value, [] => .ok value
  | value, '_' :: rest => magnitude base bound value rest
  | value, digit :: rest =>
      match digitValue? digit with
      | none => .error .malformed
      | some more =>
          if more < base then
            if bound < value * base + more then
              .error .outOfRange
            else
              magnitude base bound (value * base + more) rest
          else
            .error .malformed

/-- What the last character was, for the place of underscores. -/
inductive Seen where
  | start
  | digit
  | underscore
  | other
deriving DecidableEq, Repr

/-- Whether every underscore stands behind a digit and in front of one. -/
def underscoresOkFrom (isHex : Bool) : Seen → List Char → Bool
  | seen, [] => seen ≠ .underscore
  | seen, value :: rest =>
      if value.isDigit || (isHex && (Bytes.hexValue? value).isSome) then
        underscoresOkFrom isHex .digit rest
      else if value = '_' then
        seen = .digit && underscoresOkFrom isHex .underscore rest
      else
        seen ≠ .underscore && underscoresOkFrom isHex .other rest

/-- Whether the underscores of a number without a sign are in order; a base counts as a digit. -/
def underscoresOk : List Char → Bool
  | '0' :: mark :: rest =>
      match mark.toLower with
      | 'b' => underscoresOkFrom false .digit rest
      | 'o' => underscoresOkFrom false .digit rest
      | 'x' => underscoresOkFrom true .digit rest
      | _ => underscoresOkFrom false .start ('0' :: mark :: rest)
  | digits => underscoresOkFrom false .start digits

/-- A number without a sign. -/
def readUnsigned (digits : List Char) : Except ValueFault Nat :=
  let (base, rest) := baseAndDigits digits
  match digits with
  | [] => .error .malformed
  | _ =>
      match magnitude base (Nat.pow 2 64 - 1) 0 rest with
      | .error fault => .error fault
      | .ok value =>
          if digits.contains '_' && !underscoresOk digits then
            .error .malformed
          else
            .ok value

/-- A number of 64 bits. -/
def readInteger (text : String) : Except ValueFault Int :=
  let (isNegative, digits) :=
    match text.toList with
    | '-' :: rest => (true, rest)
    | '+' :: rest => (false, rest)
    | all => (false, all)
  match readUnsigned digits with
  | .error fault => .error fault
  | .ok value =>
      if isNegative then
        if Nat.pow 2 63 < value then .error .outOfRange else .ok (-(value : Int))
      else if Nat.pow 2 63 ≤ value then
        .error .outOfRange
      else
        .ok value

end FlagValue

namespace Flag

/-- Whether the value of a flag may be left out. -/
def isOptional (flag : Flag) : Bool :=
  match flag.default with
  | .truth _ => true
  | _ => false

/-- A value of a flag from its text, or what is wrong with the text. -/
def read (flag : Flag) (text : String) : Except String FlagValue :=
  let explain := fun (reader : String) (fault : ValueFault) =>
    "strconv." ++ reader ++ ": parsing " ++ Text.quote text ++ ": " ++ fault.message
  match flag.default with
  | .text _ => .ok (.text text)
  | .truth _ =>
      match FlagValue.readTruth text with
      | .ok value => .ok (.truth value)
      | .error fault => .error (explain "ParseBool" fault)
  | .integer _ =>
      match FlagValue.readInteger text with
      | .ok value => .ok (.integer value)
      | .error fault => .error (explain "ParseInt" fault)

/-- How a flag is called in a message. -/
def display (flag : Flag) : String :=
  match flag.letter with
  | some letter => "-" ++ String.singleton letter ++ ", --" ++ flag.name
  | none => "--" ++ flag.name

/-- The flag with a name. -/
def named? (flags : List Flag) (name : String) : Option Flag :=
  flags.find? fun flag => flag.name == name

/-- The flag with a letter. -/
def lettered? (flags : List Flag) (letter : Char) : Option Flag :=
  flags.find? fun flag => flag.letter == some letter

end Flag

end IlsCompiler.CommandLine
