import IlsCompiler.Text.Bytes
import IlsCompiler.Text.Decimal
import IlsCompiler.Text.Basic

namespace IlsCompiler.Toml

/-!
# The form of TOML documents

A document is a sequence of statements: headers that open a table, and keys with
their values.
-/

/-- The parts of a key from the outermost table on. -/
abbrev Key := List String

/-- Whether a character may stand in a key without quotes. -/
def isBareChar (value : Char) : Bool :=
  value.isAlphanum || value = '_' || value = '-'

/-- How a character stands in a quoted part of a key. -/
def quotedKeyChar (value : Char) : List Char :=
  match value.toNat with
  | 8 => ['\\', 'b']
  | 9 => ['\\', 't']
  | 10 => ['\\', 'n']
  | 12 => ['\\', 'f']
  | 13 => ['\\', 'r']
  | 34 => ['\\', '"']
  | 92 => ['\\', '\\']
  | code =>
      if code < 0x20 || code = 0x7F then
        let digit := fun (part : Nat) =>
          if part < 10 then Char.ofNat (48 + part) else Char.ofNat (87 + part)
        ['\\', 'u', '0', '0', digit (code / 16), digit (code % 16)]
      else
        [value]

/-- A part of a key, in quotes if it needs them. -/
def keyPartText (part : String) : String :=
  if part != "" && part.toList.all isBareChar then
    part
  else
    String.ofList (['"'] ++ part.toList.flatMap quotedKeyChar ++ ['"'])

/-- A key as it is written. -/
def keyText (key : Key) : String :=
  ".".intercalate (key.map keyPartText)

/-- A written value; of numbers with a fraction and of times only the kind matters. -/
inductive Term where
  | text (value : String)
  | integer (value : Int)
  | real
  | truth (value : Bool)
  | moment
  | array (items : List Term)
  | inline (fields : List (Key × Term))
deriving Repr, Inhabited

/-- A statement of a document. -/
inductive Statement where
  | header (key : Key)
  | item (key : Key)
  | assign (key : Key) (value : Term)
deriving Repr, Inhabited

/-!
## Numbers and times in TOML

A number or time is first taken as a run of the characters that can stand in it, and
then checked as a whole.
-/

/-- Whether a character is a decimal digit. -/
def isDigit (value : Char) : Bool :=
  value.isDigit

/-- Whether a character is a hexadecimal digit. -/
def isHexDigit (value : Char) : Bool :=
  (Bytes.hexValue? value).isSome

/-- Whether every underscore stands between digits, given whether a digit came before. -/
def underscoresOkAfter (digitBefore : Bool) : List Char → Bool
  | [] => digitBefore
  | value :: rest =>
      if value = '_' && !digitBefore then
        false
      else
        underscoresOkAfter (isHexDigit value) rest

/-- Whether every underscore stands between digits, and a digit at the end. -/
def underscoresOk (digits : List Char) : Bool :=
  underscoresOkAfter false digits

/-- Whether a number has a zero in front of its other digits. -/
def hasLeadingZero : List Char → Bool
  | '0' :: second :: _ => !(second = 'b' || second = 'o' || second = 'x')
  | '-' :: '0' :: _ :: _ => true
  | '+' :: '0' :: _ :: _ => true
  | _ => false

/-- The value of digits in a base; underscores do not count. -/
def digitsValue (base : Nat) (digits : List Char) : Nat :=
  digits.foldl
    (fun value digit =>
      match Bytes.hexValue? digit with
      | some more => value * base + more
      | none => value)
    0

/-- The value of an integer as it is written. -/
def integerValue : List Char → Int
  | '0' :: 'x' :: digits => digitsValue 16 digits
  | '0' :: 'o' :: digits => digitsValue 8 digits
  | '0' :: 'b' :: digits => digitsValue 2 digits
  | '-' :: digits => -(digitsValue 10 digits : Int)
  | '+' :: digits => digitsValue 10 digits
  | digits => digitsValue 10 digits

/-- An integer of 64 bits. -/
def integer? (digits : List Char) : Option Term :=
  let value := integerValue digits
  if underscoresOk digits && !hasLeadingZero digits && Text.fits 64 value then
    some (.integer value)
  else
    none

/-- Characters split at the marks of a number with a fraction; empty parts do not count. -/
def realParts : List Char → List (List Char)
  | [] => []
  | value :: rest =>
      if value = '.' || value = 'e' || value = 'E' then
        [] :: realParts rest
      else
        match realParts rest with
        | [] => [[value]]
        | part :: others => (value :: part) :: others

/-- Whether a digit follows every point, given whether one has to come next. -/
def pointsOkAfter (pending : Bool) : List Char → Bool
  | [] => !pending
  | value :: rest =>
      if pending && !isDigit value then
        false
      else
        pointsOkAfter (value = '.') rest

/-- A sign and what stands behind it. -/
def unsigned : List Char → List Char
  | '-' :: rest => rest
  | '+' :: rest => rest
  | digits => digits

/-- The parts of a number: digits before and behind the point, and the exponent. -/
def realShape? (digits : List Char) : Option (List Char × List Char × Option (List Char)) :=
  let digits := unsigned digits
  let whole := digits.takeWhile isDigit
  let afterWhole := digits.dropWhile isDigit
  let (fraction, afterFraction) :=
    match afterWhole with
    | '.' :: rest => (rest.takeWhile isDigit, rest.dropWhile isDigit)
    | rest => ([], rest)
  if whole.isEmpty && fraction.isEmpty then
    none
  else
    match afterFraction with
    | [] => some (whole, fraction, none)
    | mark :: rest =>
        if (mark = 'e' || mark = 'E') && !(unsigned rest).isEmpty && (unsigned rest).all isDigit then
          some (whole, fraction, some rest)
        else
          none

/-- The least number that rounds beyond the numbers of 64 bits. -/
def realLimit : Nat := Nat.pow 2 1024 - Nat.pow 2 970

/-- Whether digits times a power of ten stay within the numbers of 64 bits. -/
def inRange (digits : Nat) (count : Nat) (exponent : Int) : Bool :=
  if digits = 0 then
    true
  else
    let magnitude := (count : Int) + exponent
    if magnitude < 300 then
      true
    else if 320 < magnitude then
      false
    else if 0 ≤ exponent then
      digits * Nat.pow 10 exponent.toNat < realLimit
    else
      digits < realLimit * Nat.pow 10 (-exponent).toNat

/-- Whether a number with a fraction is well formed and in range. -/
def realOk (digits : List Char) : Bool :=
  let parts := (realParts digits).filter fun part => !part.isEmpty
  let plain := digits.filter fun value => value != '_'
  parts.all underscoresOk && !(hasLeadingZero (parts.headD [])) && pointsOkAfter false digits &&
    match realShape? plain with
    | none => false
    | some (whole, fraction, exponent) =>
        let significant := (whole ++ fraction).dropWhile (· == '0')
        let power := (exponent.map integerValue).getD 0
        inRange (digitsValue 10 significant) significant.length (power - fraction.length)

/-- The value of two digits. -/
def twoDigits? : List Char → Option (Nat × List Char)
  | first :: second :: rest =>
      if isDigit first && isDigit second then
        some (digitsValue 10 [first, second], rest)
      else
        none
  | _ => none

/-- The value of one digit or two, as many as there are. -/
def oneOrTwoDigits? : List Char → Option (Nat × List Char)
  | first :: rest =>
      if isDigit first then
        some ((twoDigits? (first :: rest)).getD (digitsValue 10 [first], rest))
      else
        none
  | [] => none

/-- Take a mark off the front. -/
def mark? (mark : Char) : List Char → Option (List Char)
  | value :: rest => if value = mark then some rest else none
  | [] => none

/-- The days of a month. -/
def daysIn (year month : Nat) : Nat :=
  if month = 2 then
    if year % 4 = 0 && (year % 100 != 0 || year % 400 = 0) then 29 else 28
  else if month = 4 || month = 6 || month = 9 || month = 11 then
    30
  else
    31

/-- Take a date off the front. -/
def date? (input : List Char) : Option (List Char) := do
  let (century, rest) ← twoDigits? input
  let (years, rest) ← twoDigits? rest
  let rest ← mark? '-' rest
  let (month, rest) ← twoDigits? rest
  let rest ← mark? '-' rest
  let (day, rest) ← twoDigits? rest
  guard (1 ≤ month && month ≤ 12)
  guard (1 ≤ day && day ≤ daysIn (century * 100 + years) month)
  return rest

/-- Take a time of day off the front; only its hour may be written with one digit. -/
def timeOfDay? (input : List Char) : Option (List Char) := do
  let (hour, rest) ← oneOrTwoDigits? input
  let rest ← mark? ':' rest
  let (minute, rest) ← twoDigits? rest
  let rest ← mark? ':' rest
  let (second, rest) ← twoDigits? rest
  guard (hour < 24 && minute < 60 && second < 60)
  match rest with
  | '.' :: fraction =>
      guard (!(fraction.takeWhile isDigit).isEmpty)
      return fraction.dropWhile isDigit
  | _ => return rest

/-- Whether characters are the distance to universal time, or nothing. -/
def zoneOk : List Char → Bool
  | [] => true
  | ['Z'] => true
  | sign :: rest =>
      (sign = '+' || sign = '-') &&
        match twoDigits? rest with
        | some (hour, ':' :: minutes) =>
            match twoDigits? minutes with
            | some (minute, []) => hour ≤ 24 && minute ≤ 60
            | _ => false
        | _ => false

/-- How a character of a time is read: a blank and small letters stand for the marks. -/
def timeChar (value : Char) : Char :=
  if value = 'z' then 'Z'
  else if value = 't' || value = ' ' then 'T'
  else value

/-- Whether characters are a date, a time of day or both. -/
def momentOk (input : List Char) : Bool :=
  let input := (Text.trimChars input).map timeChar
  match date? input with
  | some [] => true
  | some ('T' :: rest) =>
      match timeOfDay? rest with
      | some zone => zoneOk zone
      | none => false
  | some _ => false
  | none => timeOfDay? input == some []

/-- A run of characters of a kind, and what stands behind it. -/
def run (kind : Char → Bool) (input : List Char) : List Char × List Char :=
  (input.takeWhile kind, input.dropWhile kind)

/-- A number that starts a fraction or an exponent behind some digits. -/
def real? (front rest : List Char) : Option (Term × List Char) :=
  let (more, after) := run (fun value => isDigit value || "_.-+eE".toList.contains value) rest
  if realOk (front ++ more) then
    some (.real, after)
  else
    none

/-- A decimal number, given what stands in front of the rest of its digits. -/
def decimal? (front rest : List Char) : Option (Term × List Char) :=
  let (more, after) := run (fun value => isDigit value || value = '_') rest
  match after with
  | mark :: _ =>
      if mark = '.' || mark = 'e' || mark = 'E' then
        real? (front ++ more) after
      else
        (integer? (front ++ more)).map fun term => (term, after)
  | [] => (integer? (front ++ more)).map fun term => (term, after)

/-- A number or time that starts with digits. A zero on its own starts no time. -/
def numberOrMoment? (input : List Char) : Option (Term × List Char) :=
  let (digits, after) := run isDigit input
  match after with
  | mark :: _ =>
      if digits != ['0'] && (mark = '-' || mark = ':') then
        let (more, rest) := run (fun value => isDigit value || "-:Tt .Zz+".toList.contains value) after
        if momentOk (digits ++ more) then
          some (.moment, rest)
        else
          none
      else
        decimal? digits after
  | [] => decimal? digits after

/-- An integer behind the mark of its base; at least one digit has to follow. -/
def based? (front : List Char) (kind : Char → Bool) (rest : List Char) :
    Option (Term × List Char) :=
  match rest with
  | first :: _ =>
      if kind first then
        let (digits, after) := run (fun value => kind value || value = '_') rest
        (integer? (front ++ digits)).map fun term => (term, after)
      else
        none
  | [] => none

/-- A number with a sign, which is decimal. -/
def signed? (sign : Char) : List Char → Option (Term × List Char)
  | 'i' :: 'n' :: 'f' :: rest => some (.real, rest)
  | 'n' :: 'a' :: 'n' :: rest => some (.real, rest)
  | '0' :: 'b' :: _ => none
  | '0' :: 'o' :: _ => none
  | '0' :: 'x' :: _ => none
  | first :: rest => if isDigit first then decimal? [sign, first] rest else none
  | [] => none

/-- A number or a time. -/
def number? : List Char → Option (Term × List Char)
  | '-' :: rest => signed? '-' rest
  | '+' :: rest => signed? '+' rest
  | '0' :: 'b' :: rest => based? ['0', 'b'] (fun value => value = '0' || value = '1') rest
  | '0' :: 'o' :: rest => based? ['0', 'o'] (fun value => '0' ≤ value && value ≤ '7') rest
  | '0' :: 'x' :: rest => based? ['0', 'x'] isHexDigit rest
  | input => numberOrMoment? input

end IlsCompiler.Toml
