import IlsCompiler.Text.Bytes

namespace IlsCompiler

/-!
# Diagnostic codes

Every problem the compiler reports has a number. The thousands say which stage
reports it and give the number its printed family; a fixed catalogue gives the
known numbers a title.
-/

/-- The number of a kind of problem. -/
structure Code where
  number : Nat
deriving DecidableEq, Repr, Inhabited

namespace Code

def unknown : Code := ⟨0⟩

def lexicalInfo : Code := ⟨1000⟩
def unknownCharacter : Code := ⟨1001⟩
def unterminatedString : Code := ⟨1002⟩
def unterminatedChar : Code := ⟨1003⟩
def badNumber : Code := ⟨1004⟩
def badEscape : Code := ⟨1005⟩

def grammarInfo : Code := ⟨2000⟩
def unexpectedToken : Code := ⟨2001⟩
def expectSemicolon : Code := ⟨2002⟩
def expectIdentifier : Code := ⟨2003⟩
def expectType : Code := ⟨2004⟩
def expectExpression : Code := ⟨2005⟩
def unclosedParen : Code := ⟨2006⟩
def unclosedBrace : Code := ⟨2007⟩
def unclosedBracket : Code := ⟨2008⟩
def literalMismatch : Code := ⟨2009⟩
def badArrayLength : Code := ⟨2010⟩

def loweringInfo : Code := ⟨3000⟩
def undeclaredVariable : Code := ⟨3001⟩
def duplicateVariable : Code := ⟨3002⟩
def undeclaredFunction : Code := ⟨3003⟩
def arityMismatch : Code := ⟨3004⟩
def unknownBuiltin : Code := ⟨3005⟩
def invalidOperandType : Code := ⟨3006⟩
def duplicateLabel : Code := ⟨3007⟩
def unresolvedType : Code := ⟨3008⟩
def unsupportedFeature : Code := ⟨3009⟩
def duplicateFunction : Code := ⟨3010⟩
def missingEntry : Code := ⟨3011⟩
def divisionByZero : Code := ⟨3012⟩
def misplacedStatement : Code := ⟨3013⟩
def returnTypeMismatch : Code := ⟨3014⟩
def constantOverflow : Code := ⟨3015⟩

def emissionInfo : Code := ⟨4000⟩
def registerExhaustion : Code := ⟨4001⟩
def unresolvedOperand : Code := ⟨4002⟩
def duplicateGlobal : Code := ⟨4003⟩
def undefinedLabel : Code := ⟨4004⟩

def loadFile : Code := ⟨5001⟩
def writeFile : Code := ⟨5002⟩

def projectInfo : Code := ⟨6000⟩
def missingManifest : Code := ⟨6001⟩
def badManifest : Code := ⟨6002⟩

/-- The letters in front of a code's number, chosen by its thousands. -/
def family? (code : Code) : Option String :=
  match code.number / 1000 with
  | 1 => some "LEX"
  | 2 => some "SYN"
  | 3 => some "SEM"
  | 4 => some "GEN"
  | 5 => some "IO"
  | 6 => some "PRJ"
  | _ => none

/-- The printed form of a code, such as `SEM3001`. -/
def id (code : Code) : String :=
  match code.family? with
  | some letters => letters ++ toString code.number
  | none => "E0000"

/-- The catalogue of titles. -/
def titles : List (Code × String) := [
  (unknown, "Unknown error"),
  (lexicalInfo, "Lexical information"),
  (unknownCharacter, "Unknown character"),
  (unterminatedString, "Unterminated string literal"),
  (unterminatedChar, "Unterminated char literal"),
  (badNumber, "Malformed number literal"),
  (badEscape, "Unknown escape sequence"),
  (grammarInfo, "Syntax information"),
  (unexpectedToken, "Unexpected token"),
  (expectSemicolon, "Missing semicolon"),
  (expectIdentifier, "Expected identifier"),
  (expectType, "Expected type"),
  (expectExpression, "Expected expression"),
  (unclosedParen, "Unclosed parenthesis"),
  (unclosedBrace, "Unclosed brace"),
  (unclosedBracket, "Unclosed bracket"),
  (literalMismatch, "Literal does not match declared type"),
  (badArrayLength, "Invalid array length"),
  (loweringInfo, "Lowering information"),
  (undeclaredVariable, "Undeclared variable"),
  (duplicateVariable, "Duplicate variable"),
  (undeclaredFunction, "Undeclared function"),
  (arityMismatch, "Wrong number of arguments"),
  (unknownBuiltin, "Unknown builtin"),
  (invalidOperandType, "Invalid operand type"),
  (duplicateLabel, "Duplicate label"),
  (unresolvedType, "Unresolved type"),
  (unsupportedFeature, "Unsupported feature"),
  (duplicateFunction, "Duplicate function"),
  (missingEntry, "Missing entry function"),
  (divisionByZero, "Division by zero in constant expression"),
  (misplacedStatement, "Statement not allowed here"),
  (returnTypeMismatch, "Return does not match function type"),
  (constantOverflow, "Constant expression overflows int"),
  (emissionInfo, "Code generation information"),
  (registerExhaustion, "Out of registers"),
  (unresolvedOperand, "Unresolvable variable reference"),
  (duplicateGlobal, "Duplicate global declaration"),
  (undefinedLabel, "Jump to undefined label"),
  (loadFile, "Failed to load file"),
  (writeFile, "Failed to write file"),
  (projectInfo, "Project information"),
  (missingManifest, "Missing ils.toml"),
  (badManifest, "Invalid ils.toml")]

/-- The title of a code; a number outside the catalogue is an unknown error. -/
def title (code : Code) : String :=
  (titles.lookup code).getD "Unknown error"

/-- A code with its title. -/
def describe (code : Code) : String :=
  "[" ++ code.id ++ "]: " ++ code.title

end Code

/-!
## Diagnostics

A diagnostic is one problem with its severity, its code, a message and where it
is. A line of zero and an empty file name mean that the place is not known.
-/

/-- How bad a problem is; a higher rank is worse, and errors stop the build. -/
structure Severity where
  rank : Nat
deriving DecidableEq, Repr, Inhabited

namespace Severity

def info : Severity := ⟨0⟩
def warning : Severity := ⟨1⟩
def error : Severity := ⟨2⟩

/-- The word for a severity. -/
def name (severity : Severity) : String :=
  match severity.rank with
  | 0 => "info"
  | 1 => "warning"
  | 2 => "error"
  | _ => "unknown"

/-- Whether a problem of this severity stops the build. -/
def isError (severity : Severity) : Bool :=
  error.rank ≤ severity.rank

end Severity

/-- A remark attached to a diagnostic. -/
structure Note where
  line : Int
  message : Bytes
deriving DecidableEq, Repr, Inhabited

/-- One reported problem. -/
structure Diagnostic where
  severity : Severity
  code : Code
  message : Bytes
  file : String := ""
  line : Int := 0
  notes : List Note := []
deriving DecidableEq, Repr, Inhabited

namespace Diagnostic

/-- An error-severity diagnostic without a place. -/
def error (code : Code) (message : Bytes) : Diagnostic :=
  { severity := .error, code := code, message := message }

/-- Where a problem is, leaving out what is not known. -/
def location (diagnostic : Diagnostic) : String :=
  if diagnostic.file ≠ "" then
    if 0 < diagnostic.line then
      diagnostic.file ++ ":" ++ toString diagnostic.line
    else
      diagnostic.file
  else if 0 < diagnostic.line then
    "line " ++ toString diagnostic.line
  else
    ""

/-- A diagnostic on one line: place, severity, code and message. -/
def text (diagnostic : Diagnostic) : Bytes :=
  let place := diagnostic.location
  let lead := if place = "" then "" else place ++ ": "
  Bytes.ofString (lead ++ diagnostic.severity.name ++ " " ++ diagnostic.code.id ++ ": ") ++
    diagnostic.message

/-- Give a diagnostic without a line the given line. -/
def atLine (diagnostic : Diagnostic) (line : Int) : Diagnostic :=
  if diagnostic.line = 0 then
    { diagnostic with line := line }
  else
    diagnostic

/-- Give a diagnostic without a file the given file. -/
def inFile (diagnostic : Diagnostic) (file : String) : Diagnostic :=
  if diagnostic.file = "" then
    { diagnostic with file := file }
  else
    diagnostic

end Diagnostic

/-- A problem found while reading source text, before it is tied to a file. -/
structure Report where
  code : Code
  line : Nat
  message : Bytes
deriving DecidableEq, Repr, Inhabited

/-- The error-severity diagnostic of a report in a file. -/
def Report.diagnostic (report : Report) (file : String) : Diagnostic :=
  { Diagnostic.error report.code report.message with file := file, line := report.line }

end IlsCompiler
