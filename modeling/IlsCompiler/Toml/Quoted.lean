import IlsCompiler.Text.Bytes

namespace IlsCompiler.Toml

/-!
# Strings in TOML

Strings in double quotes have escapes, strings in single quotes have none. With three
quotes a string may run over several lines; its first line end does not count, and a
backslash at the end of a line takes away the line end and the blanks behind it.
-/

/-- What stands up to a quote, in which a backslash keeps the next character. -/
def untilQuote : List Char → Option (List Char × List Char)
  | [] => none
  | '"' :: rest => some ([], rest)
  | '\n' :: _ => none
  | '\r' :: _ => none
  | '\\' :: '\n' :: _ => none
  | '\\' :: '\r' :: _ => none
  | '\\' :: value :: rest =>
      (untilQuote rest).map fun (front, back) => ('\\' :: value :: front, back)
  | value :: rest => (untilQuote rest).map fun (front, back) => (value :: front, back)

/-- What stands up to a single quote. -/
def untilApostrophe : List Char → Option (List Char × List Char)
  | [] => none
  | '\'' :: rest => some ([], rest)
  | '\n' :: _ => none
  | '\r' :: _ => none
  | value :: rest => (untilApostrophe rest).map fun (front, back) => (value :: front, back)

/-- The hexadecimal value of digits. -/
def hexValues? (digits : List Char) : Option Nat :=
  digits.foldlM
    (fun value digit => (Bytes.hexValue? digit).map fun more => value * 16 + more) 0

/-- The character with a code, if there is one. -/
def charOfCode? (code : Nat) : Option Char :=
  if code < 0xD800 || (0xDFFF < code && code ≤ 0x10FFFF) then
    some (Char.ofNat code)
  else
    none

/-- The character that an escape of four or eight digits stands for. -/
def escaped? (digits : List Char) : Option Char :=
  (hexValues? digits).bind charOfCode?

/-- Whether a character is a blank or belongs to a line end. -/
def isBlank (value : Char) : Bool :=
  value = ' ' || value = '\t' || value = '\r' || value = '\n'

/-- Whether only blanks stand in front of the next line end. -/
def endsLine (text : List Char) : Bool :=
  (text.takeWhile isBlank).contains '\n'

/--
The characters that escapes stand for. A backslash at the end of a line stands for
nothing, and `skipping` says that the blanks behind it are being left out. Such a line
end is no part of another escape, whose digits have to follow it directly.
-/
def unescape (skipping : Bool) : List Char → Option (List Char)
  | [] => some []
  | '\\' :: 'b' :: rest => (unescape false rest).map (Char.ofNat 8 :: ·)
  | '\\' :: 't' :: rest => (unescape false rest).map ('\t' :: ·)
  | '\\' :: 'n' :: rest => (unescape false rest).map ('\n' :: ·)
  | '\\' :: 'f' :: rest => (unescape false rest).map (Char.ofNat 12 :: ·)
  | '\\' :: 'r' :: rest => (unescape false rest).map ('\r' :: ·)
  | '\\' :: '"' :: rest => (unescape false rest).map ('"' :: ·)
  | '\\' :: '\\' :: rest => (unescape false rest).map ('\\' :: ·)
  | '\\' :: 'u' :: a :: b :: c :: d :: rest =>
      match escaped? [a, b, c, d] with
      | none => none
      | some value => (unescape false rest).map (value :: ·)
  | '\\' :: 'U' :: a :: b :: c :: d :: e :: f :: g :: h :: rest =>
      match escaped? [a, b, c, d, e, f, g, h] with
      | none => none
      | some value => (unescape false rest).map (value :: ·)
  | '\\' :: rest => if endsLine rest then unescape true rest else none
  | value :: rest =>
      if skipping && isBlank value then
        unescape true rest
      else
        (unescape false rest).map (value :: ·)

/-- Characters without a line end in front. -/
def withoutFirstLineEnd : List Char → List Char
  | '\n' :: rest => rest
  | '\r' :: '\n' :: rest => rest
  | text => text

/--
What stands up to three quotes. Up to two quotes may stand directly in front of them.
A run of quotes is counted in `run`; `escapedBefore` says that an escaped backslash
stands in front of it, and then one more quote may.
-/
def untilThreeQuotes (escapedBefore : Bool) (run : Nat) :
    List Char → Option (List Char × List Char)
  | [] => closed []
  | '"' :: rest => untilThreeQuotes escapedBefore (run + 1) rest
  | '\\' :: value :: rest =>
      if 3 ≤ run then
        closed ('\\' :: value :: rest)
      else
        (untilThreeQuotes (value = '\\') 0 rest).map fun (front, back) =>
          (List.replicate run '"' ++ '\\' :: value :: front, back)
  | value :: rest =>
      if 3 ≤ run then
        closed (value :: rest)
      else
        (untilThreeQuotes false 0 rest).map fun (front, back) =>
          (List.replicate run '"' ++ value :: front, back)
where
  /-- The string ends with the run of quotes. -/
  closed (rest : List Char) : Option (List Char × List Char) :=
    if 3 ≤ run && run ≤ (if escapedBefore then 6 else 5) then
      some (List.replicate (run - 3) '"', rest)
    else
      none

/-- What stands up to three single quotes; up to two may stand directly in front of them. -/
def untilThreeApostrophes (run : Nat) : List Char → Option (List Char × List Char)
  | [] => closed []
  | '\'' :: rest => untilThreeApostrophes (run + 1) rest
  | value :: rest =>
      if 3 ≤ run then
        closed (value :: rest)
      else
        (untilThreeApostrophes 0 rest).map fun (front, back) =>
          (List.replicate run '\'' ++ value :: front, back)
where
  /-- The string ends with the run of quotes. -/
  closed (rest : List Char) : Option (List Char × List Char) :=
    if 3 ≤ run && run ≤ 5 then
      some (List.replicate (run - 3) '\'', rest)
    else
      none

/-- A string on one line, in quotes of either kind, behind its first quote. -/
def plainString? (quote : Char) (input : List Char) : Option (String × List Char) :=
  if quote = '"' then
    (untilQuote input).bind fun (raw, rest) =>
      (unescape false raw).map fun value => (String.ofList value, rest)
  else
    (untilApostrophe input).map fun (raw, rest) => (String.ofList raw, rest)

/-- A string of any form, from its first quote on. -/
def string? : List Char → Option (String × List Char)
  | '"' :: '"' :: '"' :: input =>
      (untilThreeQuotes false 0 input).bind fun (raw, rest) =>
        (unescape false (withoutFirstLineEnd raw)).map fun value =>
          (String.ofList value, rest)
  | '\'' :: '\'' :: '\'' :: input =>
      (untilThreeApostrophes 0 input).map fun (raw, rest) =>
        (String.ofList (withoutFirstLineEnd raw), rest)
  | quote :: input =>
      if quote = '"' || quote = '\'' then
        plainString? quote input
      else
        none
  | [] => none

end IlsCompiler.Toml
