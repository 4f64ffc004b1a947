import IlsCompiler.Token.Basic
import IlsCompiler.Diagnostic.Basic

namespace IlsCompiler

/-!
# Reading tokens from bytes

The reader skips blanks and comments, takes the longest word that starts at the
next byte and goes on behind it. A malformed word gives an invalid token and
says what is wrong with it; reading never stops before the end of the input.
-/

/-- What can be wrong with the spelling of a token. -/
inductive LexicalFault where
  | unknownCharacter (byte : UInt8)
  | unterminatedString
  | newlineInString
  | emptyChar
  | longChar
  | badNumber (spelling : Bytes)
  | badEscape (byte : UInt8)
deriving DecidableEq, Repr

namespace LexicalFault

/-- The code of a lexical fault. -/
def code : LexicalFault → Code
  | .unknownCharacter _ => .unknownCharacter
  | .unterminatedString => .unterminatedString
  | .newlineInString => .unterminatedString
  | .emptyChar => .unterminatedChar
  | .longChar => .unterminatedChar
  | .badNumber _ => .badNumber
  | .badEscape _ => .badEscape

/-- The message of a lexical fault. -/
def message : LexicalFault → Bytes
  | .unknownCharacter byte =>
      Bytes.ofString "unknown character '" ++ [byte] ++ Bytes.ofString "'"
  | .unterminatedString => Bytes.ofString "unterminated string literal"
  | .newlineInString => Bytes.ofString "newline in string literal"
  | .emptyChar => Bytes.ofString "empty or unterminated char literal"
  | .longChar => Bytes.ofString "char literal must hold exactly one character"
  | .badNumber spelling => Bytes.ofString "invalid number literal " ++ spelling
  | .badEscape byte => Bytes.ofString "unknown escape sequence \\" ++ [byte]

end LexicalFault

/-- A token together with what is wrong with it. -/
structure Lexeme where
  token : Token
  fault : Option LexicalFault
deriving DecidableEq, Repr

namespace Lexeme

/-- The report an invalid token gives rise to. -/
def report? (lexeme : Lexeme) : Option Report :=
  lexeme.fault.map fun fault =>
    { code := fault.code, line := lexeme.token.line, message := fault.message }

end Lexeme

/-- The input that is still to be read and the line it starts on. -/
structure Cursor where
  rest : Bytes
  line : Nat
deriving DecidableEq, Repr

namespace Cursor

/-- A cursor at the start of a source text. -/
def start (source : Bytes) : Cursor :=
  { rest := source, line := 1 }

def newline : UInt8 := 10
def doubleQuote : UInt8 := 34
def singleQuote : UInt8 := 39
def slash : UInt8 := 47
def backslash : UInt8 := 92

/-- Whether a byte can start a name. -/
def isNameStart (byte : UInt8) : Bool :=
  byte == 95 || (65 ≤ byte && byte ≤ 90) || (97 ≤ byte && byte ≤ 122)

/-- Whether a byte is a decimal digit. -/
def isDigit (byte : UInt8) : Bool :=
  48 ≤ byte && byte ≤ 57

/-- Whether a byte can continue a name. -/
def isNameByte (byte : UInt8) : Bool :=
  isNameStart byte || isDigit byte

/-- Whether a byte is a blank that does not end the line. -/
def isBlank (byte : UInt8) : Bool :=
  byte == 32 || byte == 9 || byte == 13

/-- Skip blanks, line ends and comments; the flag says that a comment is open. -/
def skipTriviaFrom : Bool → Bytes → Nat → Cursor
  | _, [], line => ⟨[], line⟩
  | true, byte :: rest, line =>
      if byte == newline then
        skipTriviaFrom false rest (line + 1)
      else
        skipTriviaFrom true rest line
  | false, byte :: rest, line =>
      if byte == newline then
        skipTriviaFrom false rest (line + 1)
      else if isBlank byte then
        skipTriviaFrom false rest line
      else if byte == slash && rest.head? == some slash then
        skipTriviaFrom true rest line
      else
        ⟨byte :: rest, line⟩

/-- The cursor behind the blanks and comments in front of it. -/
def skipTrivia (cursor : Cursor) : Cursor :=
  skipTriviaFrom false cursor.rest cursor.line

/-- A word that was read: its category, its text, what is wrong with it, and what follows. -/
structure Scanned where
  kind : Token.Kind
  text : Bytes
  fault : Option LexicalFault
  next : Cursor
deriving DecidableEq, Repr

/-- A well-formed word. -/
def Scanned.good (kind : Token.Kind) (text rest : Bytes) (line : Nat) : Scanned :=
  { kind := kind, text := text, fault := none, next := ⟨rest, line⟩ }

/-- A malformed word. -/
def Scanned.bad (fault : LexicalFault) (text rest : Bytes) (line : Nat) : Scanned :=
  { kind := .invalid, text := text, fault := some fault, next := ⟨rest, line⟩ }

/-- A name or a reserved word. -/
def scanName (bytes : Bytes) (line : Nat) : Scanned :=
  let word := bytes.takeWhile isNameByte
  let rest := bytes.dropWhile isNameByte
  let kind := (Token.Kind.ofWord? (Bytes.ascii word)).getD .identifier
  .good kind word rest line

/-- A decimal number; letters right behind the digits make it malformed. -/
def scanNumber (bytes : Bytes) (line : Nat) : Scanned :=
  let digits := bytes.takeWhile isDigit
  let rest := bytes.dropWhile isDigit
  if (rest.head?.map isNameStart).getD false then
    let spelling := digits ++ rest.takeWhile isNameByte
    .bad (.badNumber spelling) spelling (rest.dropWhile isNameByte) line
  else
    .good .integer digits rest line

/-- The byte an escape letter stands for. -/
def unescape? (letter : UInt8) : Option UInt8 :=
  match letter with
  | 110 => some 10
  | 116 => some 9
  | 114 => some 13
  | 48 => some 0
  | 92 => some 92
  | 34 => some 34
  | 39 => some 39
  | _ => none

/-- The line behind a byte. -/
def lineAfter (byte : UInt8) (line : Nat) : Nat :=
  if byte == newline then line + 1 else line

/-- The rest of a string literal behind its opening quote, with the contents read so far. -/
def scanString (line : Nat) : Bytes → Bytes → Scanned
  | contents, [] => .bad .unterminatedString contents [] line
  | contents, [byte] =>
      if byte == doubleQuote then
        .good .string contents [] line
      else if byte == backslash then
        .bad (.badEscape 0) contents [] line
      else if byte == newline then
        .bad .newlineInString contents [byte] line
      else
        .bad .unterminatedString (contents ++ [byte]) [] line
  | contents, byte :: second :: rest =>
      if byte == doubleQuote then
        .good .string contents (second :: rest) line
      else if byte == backslash then
        match unescape? second with
        | some value => scanString line (contents ++ [value]) rest
        | none => .bad (.badEscape second) contents rest (lineAfter second line)
      else if byte == newline then
        .bad .newlineInString contents (byte :: second :: rest) line
      else
        scanString line (contents ++ [byte]) (second :: rest)

/-- The end of a character literal behind its one character. -/
def closeChar (value : UInt8) (bytes : Bytes) (line : Nat) : Scanned :=
  match bytes with
  | [] => .bad .longChar [] [] line
  | byte :: rest =>
      if byte == singleQuote then
        .good .character [value] rest line
      else
        let skipped :=
          bytes.dropWhile fun other => other != singleQuote && other != newline
        if skipped.head? == some singleQuote then
          .bad .longChar [] skipped.tail line
        else
          .bad .longChar [] skipped line

/-- The rest of a character literal behind its opening quote. -/
def scanChar (bytes : Bytes) (line : Nat) : Scanned :=
  match bytes with
  | [] => .bad .emptyChar [] [] line
  | byte :: rest =>
      if byte == backslash then
        match rest with
        | [] => .bad (.badEscape 0) [] [] line
        | letter :: others =>
            match unescape? letter with
            | some value => closeChar value others line
            | none => .bad (.badEscape letter) [] others (lineAfter letter line)
      else if byte == singleQuote || byte == newline || byte == 0 then
        .bad .emptyChar [] bytes line
      else
        closeChar byte rest line

/-- The operator of two bytes. -/
def pair? (first second : UInt8) : Option Token.Kind :=
  match first, second with
  | 45, 62 => some .arrow
  | 38, 38 => some .both
  | 124, 124 => some .either
  | 61, 61 => some .equal
  | 33, 61 => some .notEqual
  | 60, 61 => some .lessEqual
  | 62, 61 => some .greaterEqual
  | _, _ => none

/-- The operator or punctuation of one byte. -/
def single? (byte : UInt8) : Option Token.Kind :=
  match byte with
  | 43 => some .plus
  | 45 => some .minus
  | 42 => some .star
  | 47 => some .slash
  | 37 => some .percent
  | 61 => some .assign
  | 60 => some .less
  | 62 => some .greater
  | 58 => some .colon
  | 59 => some .semicolon
  | 44 => some .comma
  | 40 => some .openParen
  | 41 => some .closeParen
  | 123 => some .openBrace
  | 125 => some .closeBrace
  | 91 => some .openBracket
  | 93 => some .closeBracket
  | 64 => some .sigil
  | _ => none

/-- An operator or punctuation of one byte, or a byte that starts no token. -/
def scanSingle (byte : UInt8) (rest : Bytes) (line : Nat) : Scanned :=
  match single? byte with
  | some kind => .good kind [byte] rest line
  | none => .bad (.unknownCharacter byte) [byte] rest line

/-- An operator or punctuation; two bytes are tried before one. -/
def scanOperator (byte : UInt8) (rest : Bytes) (line : Nat) : Scanned :=
  match rest with
  | [] => scanSingle byte rest line
  | second :: others =>
      match pair? byte second with
      | some kind => .good kind [byte, second] others line
      | none => scanSingle byte rest line

/-- Read the word that starts at the front byte. -/
def scanWord (byte : UInt8) (rest : Bytes) (line : Nat) : Scanned :=
  if isNameStart byte then
    scanName (byte :: rest) line
  else if isDigit byte then
    scanNumber (byte :: rest) line
  else if byte == doubleQuote then
    scanString line [] rest
  else if byte == singleQuote then
    scanChar rest line
  else
    scanOperator byte rest line

/-- The next token and the cursor behind it. At the end of the input it is the end token. -/
def next (cursor : Cursor) : Lexeme × Cursor :=
  let here := cursor.skipTrivia
  match here.rest with
  | [] =>
      ({ token := { kind := .endOfInput, line := here.line, text := [] }, fault := none }, here)
  | byte :: rest =>
      let scanned := scanWord byte rest here.line
      ({ token := { kind := scanned.kind, line := here.line, text := scanned.text },
         fault := scanned.fault }, scanned.next)

/-- Read at most the given number of tokens, stopping behind the end token. -/
def lexemesWithin : Nat → Cursor → List Lexeme
  | 0, _ => []
  | count + 1, cursor =>
      let (lexeme, following) := cursor.next
      if lexeme.token.kind = .endOfInput then
        [lexeme]
      else
        lexeme :: lexemesWithin count following

/-- All tokens from the cursor on, the end token last. Every other token takes at least a byte. -/
def lexemes (cursor : Cursor) : List Lexeme :=
  lexemesWithin (cursor.rest.length + 1) cursor

end Cursor

/-- All tokens of a source text, the end token last. -/
def Lexeme.ofSource (source : Bytes) : List Lexeme :=
  (Cursor.start source).lexemes

/-- A reader with one token of lookahead that keeps the reports made so far. -/
structure Lexer where
  cursor : Cursor
  lookahead : Option Token
  reports : List Report
deriving DecidableEq, Repr

namespace Lexer

/-- A reader at the start of a source text. -/
def ofSource (source : Bytes) : Lexer :=
  { cursor := .start source, lookahead := none, reports := [] }

/-- Take the next token. -/
def next (lexer : Lexer) : Token × Lexer :=
  match lexer.lookahead with
  | some token => (token, { lexer with lookahead := none })
  | none =>
      let (lexeme, cursor) := lexer.cursor.next
      (lexeme.token,
        { lexer with cursor := cursor, reports := lexer.reports ++ lexeme.report?.toList })

/-- Look at the next token without taking it. -/
def peek (lexer : Lexer) : Token × Lexer :=
  let (token, after) := lexer.next
  (token, { after with lookahead := some token })

/-- Take all tokens up to the end token, at most the given number. -/
def allWithin : Nat → Lexer → List Token × Lexer
  | 0, lexer => ([], lexer)
  | count + 1, lexer =>
      let (token, after) := lexer.next
      if token.kind = .endOfInput then
        ([token], after)
      else
        let (tokens, final) := allWithin count after
        (token :: tokens, final)

/-- Take all remaining tokens, the end token last. -/
def all (lexer : Lexer) : List Token × Lexer :=
  allWithin (lexer.cursor.rest.length + 2) lexer

end Lexer

end IlsCompiler
