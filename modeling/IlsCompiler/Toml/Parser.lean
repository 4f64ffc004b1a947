import IlsCompiler.Toml.Quoted
import IlsCompiler.Toml.Scalar

namespace IlsCompiler.Toml

/-!
# Reading TOML

The text of a document is read into its statements. Line ends separate statements;
inside an array they do not count, inside an inline table they are not allowed.
-/

/-- Whether a character is a blank within a line. -/
def isSpace (value : Char) : Bool :=
  value = ' ' || value = '\t'

/-- Text without blanks in front. -/
def skipSpaces (input : List Char) : List Char :=
  input.dropWhile isSpace

/-- Whether a character ends a line. -/
def isLineEnd (value : Char) : Bool :=
  value = '\n' || value = '\r'

/-- Text without a comment in front. -/
def skipComment (input : List Char) : List Char :=
  input.dropWhile fun value => !isLineEnd value

/-- Text without blanks, line ends and comments in front; `inComment` says that one is open. -/
def skipFiller (inComment : Bool) : List Char → List Char
  | [] => []
  | value :: rest =>
      if inComment then
        skipFiller (!isLineEnd value) rest
      else if isSpace value || isLineEnd value then
        skipFiller false rest
      else if value = '#' then
        skipFiller true rest
      else
        value :: rest

/-- A part of a key, plain or in quotes. -/
def keyPart? (input : List Char) : Option (String × List Char) :=
  match input with
  | [] => none
  | first :: rest =>
      if first = '"' || first = '\'' then
        plainString? first rest
      else
        match run isBareChar input with
        | ([], _) => none
        | (part, after) => some (String.ofList part, after)

/-- A key of at most a number of parts, and what stands behind it. -/
def keyWithin? : Nat → List Char → Option (Key × List Char)
  | 0, _ => none
  | fuel + 1, input =>
      match keyPart? (skipSpaces input) with
      | none => none
      | some (part, after) =>
          match skipSpaces after with
          | '.' :: rest => (keyWithin? fuel rest).map fun (parts, last) => (part :: parts, last)
          | rest => some ([part], rest)

/-- A key and what stands behind it. -/
def key? (input : List Char) : Option (Key × List Char) :=
  keyWithin? input.length input

/-- A word that is a truth value. -/
def truth? (input : List Char) : Option (Term × List Char) :=
  match run Char.isAlpha input with
  | (word, rest) =>
      if word = "true".toList then some (.truth true, rest)
      else if word = "false".toList then some (.truth false, rest)
      else none

/-- A value without values in it. -/
def scalar? : List Char → Option (Term × List Char)
  | 'i' :: 'n' :: 'f' :: rest => some (.real, rest)
  | 'n' :: 'a' :: 'n' :: rest => some (.real, rest)
  | input =>
      match input with
      | [] => none
      | first :: _ =>
          if first = '"' || first = '\'' then
            (string? input).map fun (value, rest) => (.text value, rest)
          else if isDigit first || first = '-' || first = '+' then
            number? input
          else
            truth? input

mutual

/-- A value; the fuel bounds how many values and separators may follow. -/
def value? : Nat → List Char → Option (Term × List Char)
  | 0, _ => none
  | fuel + 1, input =>
      match skipSpaces input with
      | '[' :: rest => (items? fuel rest).map fun (items, last) => (.array items, last)
      | '\x7b' :: rest =>
          match skipSpaces rest with
          | '\x7d' :: last => some (.inline [], last)
          | inner => (fields? fuel inner).map fun (fields, last) => (.inline fields, last)
      | start => scalar? start

/-- The items of an array up to its end; a comma may stand behind the last one. -/
def items? : Nat → List Char → Option (List Term × List Char)
  | 0, _ => none
  | fuel + 1, input =>
      match skipFiller false input with
      | ']' :: rest => some ([], rest)
      | start =>
          match value? fuel start with
          | none => none
          | some (item, after) =>
              match skipFiller false after with
              | ']' :: rest => some ([item], rest)
              | ',' :: rest => (items? fuel rest).map fun (items, last) => (item :: items, last)
              | _ => none

/-- The fields of an inline table up to its end. -/
def fields? : Nat → List Char → Option (List (Key × Term) × List Char)
  | 0, _ => none
  | fuel + 1, input =>
      match key? input with
      | some (key, '=' :: rest) =>
          match value? fuel rest with
          | none => none
          | some (term, after) =>
              match skipSpaces after with
              | '\x7d' :: last => some ([(key, term)], last)
              | ',' :: more =>
                  (fields? fuel more).map fun (fields, last) => ((key, term) :: fields, last)
              | _ => none
      | _ => none

end

/-- The rest of a line behind a statement: blanks and a comment. -/
def lineRest? (input : List Char) : Option (List Char) :=
  match skipSpaces input with
  | [] => some []
  | value :: rest =>
      if isLineEnd value then
        some rest
      else if value = '#' then
        some (skipComment rest)
      else
        none

/-- A statement and what stands behind its line. -/
def statement? (input : List Char) : Option (Statement × List Char) :=
  match input with
  | '[' :: '[' :: rest =>
      match key? rest with
      | some (key, ']' :: ']' :: after) => (lineRest? after).map fun last => (.item key, last)
      | _ => none
  | '[' :: rest =>
      match key? rest with
      | some (key, ']' :: after) => (lineRest? after).map fun last => (.header key, last)
      | _ => none
  | _ =>
      match key? input with
      | some (key, '=' :: rest) =>
          match value? rest.length rest with
          | none => none
          | some (term, after) => (lineRest? after).map fun last => (.assign key term, last)
      | _ => none

/-- At most a number of statements. -/
def statementsWithin? : Nat → List Char → Option (List Statement)
  | 0, input => if skipFiller false input = [] then some [] else none
  | fuel + 1, input =>
      match skipFiller false input with
      | [] => some []
      | start =>
          match statement? start with
          | none => none
          | some (first, rest) =>
              (statementsWithin? fuel rest).map fun others => first :: others

/-- Whether a character may not stand in a document. -/
def isForbidden (value : Char) : Bool :=
  (value.toNat < 0x20 && value != '\t' && value != '\n' && value != '\r') ||
    value.toNat = 0x7F || value = Bytes.replacement

/-- Whether every carriage return stands in front of a line feed. -/
def returnsOk : List Char → Bool
  | [] => true
  | '\r' :: '\n' :: rest => returnsOk rest
  | '\r' :: _ => false
  | _ :: rest => returnsOk rest

/-- Contents without a mark for their encoding in front. -/
def withoutMark : Bytes → Bytes
  | 0xFF :: 0xFE :: rest => rest
  | 0xFE :: 0xFF :: rest => rest
  | 0xEF :: 0xBB :: 0xBF :: rest => rest
  | contents => contents

/-- The statements of a document. -/
def statements? (contents : Bytes) : Option (List Statement) :=
  let input := Bytes.toChars (withoutMark contents)
  if input.any isForbidden || !returnsOk input then
    none
  else
    statementsWithin? input.length input

end IlsCompiler.Toml
