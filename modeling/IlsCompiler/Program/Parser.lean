import IlsCompiler.Token.Lexer
import IlsCompiler.Program.Basic
import IlsCompiler.Text.Decimal

namespace IlsCompiler

/-!
# Reading programs

A recursive descent over the tokens of a source text. Reading stops at the first
problem. A token that is malformed in itself is reported as such, in place of
whatever the grammar would say about it.
-/

/-- What a rule of the grammar asks for at a place. -/
inductive Expected where
  | blockBrace
  | assignSign
  | conditionParen
  | semicolon
  | elementComma
  | builtinName
  | argumentComma
  | functionName
  | parameterParen
  | parameterComma
  | parameterName
  | parameterColon
  | type
  | arrayLength
deriving DecidableEq, Repr

namespace Expected

/-- The token category that a rule asks for. -/
def kind : Expected → Token.Kind
  | .blockBrace => .openBrace
  | .assignSign => .assign
  | .conditionParen => .openParen
  | .semicolon => .semicolon
  | .elementComma => .comma
  | .builtinName => .identifier
  | .argumentComma => .comma
  | .functionName => .identifier
  | .parameterParen => .openParen
  | .parameterComma => .comma
  | .parameterName => .identifier
  | .parameterColon => .colon
  | .type => .identifier
  | .arrayLength => .integer

/-- The code of the problem when it is not there. -/
def code : Expected → Code
  | .semicolon => .expectSemicolon
  | .builtinName => .expectIdentifier
  | .functionName => .expectIdentifier
  | .parameterName => .expectIdentifier
  | .parameterColon => .expectType
  | .type => .expectType
  | .arrayLength => .badArrayLength
  | _ => .unexpectedToken

/-- The words for it. -/
def phrase : Expected → String
  | .blockBrace => "expected '\x7b'"
  | .assignSign => "expected '='"
  | .conditionParen => "expected '(' before condition"
  | .semicolon => "expected ';'"
  | .elementComma => "expected ',' between array elements"
  | .builtinName => "expected builtin name after '@'"
  | .argumentComma => "expected ',' between arguments"
  | .functionName => "expected function name"
  | .parameterParen => "expected '(' after function name"
  | .parameterComma => "expected ',' between parameters"
  | .parameterName => "expected parameter name"
  | .parameterColon => "expected ':' after parameter name"
  | .type => "expected type"
  | .arrayLength => "expected array length"

end Expected

/-- A pair of brackets that was not closed. -/
inductive Unclosed where
  | block
  | condition
  | group
  | bracket
  | call
  | parameters
deriving DecidableEq, Repr

/-- What can be wrong with the order of tokens. -/
inductive GrammarFault where
  | expected (item : Expected) (found : Token)
  | unclosed (brackets : Unclosed)
  | statementStart (found : Token)
  | afterName (name : String)
  | wideNumber (spelling : String)
  | expression (found : Token)
  | builtinParen
  | unknownType (name : String)
  | arrayLength
  | arrayOf (type : Ty)
  | literal (declared found : Ty)
  | arrayLiteral (declared : Ty)
deriving DecidableEq, Repr

namespace GrammarFault

/-- The code of a grammar fault. -/
def code : GrammarFault → Code
  | .expected item _ => item.code
  | .unclosed .block => .unclosedBrace
  | .unclosed .bracket => .unclosedBracket
  | .unclosed _ => .unclosedParen
  | .statementStart _ => .unexpectedToken
  | .afterName _ => .unexpectedToken
  | .wideNumber _ => .badNumber
  | .expression _ => .expectExpression
  | .builtinParen => .unexpectedToken
  | .unknownType _ => .unresolvedType
  | .arrayLength => .badArrayLength
  | .arrayOf _ => .unresolvedType
  | .literal _ _ => .literalMismatch
  | .arrayLiteral _ => .literalMismatch

/-- The message of a grammar fault. -/
def message : GrammarFault → String
  | .expected item found => item.phrase ++ ", got " ++ found.describe
  | .unclosed .block => "unclosed '\x7b'"
  | .unclosed .condition => "unclosed '(' around condition"
  | .unclosed .group => "unclosed '('"
  | .unclosed .bracket => "unclosed '['"
  | .unclosed .call => "unclosed '(' in call"
  | .unclosed .parameters => "unclosed '(' in parameter list"
  | .statementStart found => "unexpected " ++ found.describe ++ " at start of statement"
  | .afterName name => "expected ':', '=', '[' or '(' after \"" ++ name ++ "\""
  | .wideNumber spelling => "integer literal " ++ spelling ++ " does not fit in 32 bits"
  | .expression found => "expected expression, got " ++ found.describe
  | .builtinParen => "expected '(' after builtin name"
  | .unknownType name => "unknown type \"" ++ name ++ "\""
  | .arrayLength => "array length must be a positive integer"
  | .arrayOf type => "arrays of " ++ type.name ++ " are not supported"
  | .literal declared found => "expected " ++ declared.name ++ " literal, got " ++ found.name
  | .arrayLiteral declared => "array literal assigned to " ++ declared.name

end GrammarFault

/-- A reader of tokens: it consumes lexemes and stops at the first problem. -/
abbrev Parser := StateT (List Lexeme) (Except Report)

namespace Parser

/-- The token a parser sees behind the last one. -/
def endToken : Token :=
  { kind := .endOfInput, line := 0, text := [] }

/-- Look at the next token. -/
def peek : Parser Token :=
  fun lexemes =>
    match lexemes with
    | [] => .ok (endToken, lexemes)
    | lexeme :: _ => .ok (lexeme.token, lexemes)

/-- Take the next token. -/
def advance : Parser Token :=
  fun lexemes =>
    match lexemes with
    | [] => .ok (endToken, lexemes)
    | lexeme :: rest => .ok (lexeme.token, rest)

/-- Whether the next token has the given category. -/
def at? (kind : Token.Kind) : Parser Bool := do
  return (← peek).kind = kind

/-- Stop with a fault on a line; a malformed next token is reported in its place. -/
def fail (line : Nat) (fault : GrammarFault) : Parser α :=
  fun lexemes =>
    match lexemes.head?.bind Lexeme.report? with
    | some report => .error report
    | none =>
        .error { code := fault.code, line := line, message := Bytes.ofString fault.message }

/-- Stop with a fault at the next token. -/
def failHere (fault : GrammarFault) : Parser α := do
  fail (← peek).line fault

/-- Take a token that a rule asks for. -/
def expect (item : Expected) : Parser Token := do
  let token ← peek
  if token.kind = item.kind then
    advance
  else
    failHere (.expected item token)

/-- Take a closing bracket, or say on which line its partner was left open. -/
def close (kind : Token.Kind) (line : Nat) (brackets : Unclosed) : Parser Unit := do
  if ← at? kind then
    let _ ← advance
  else
    fail line (.unclosed brackets)

/-- Take the semicolon behind a statement. -/
def semicolon : Parser Unit := do
  let _ ← expect .semicolon

/-- How tightly an operator binds its operands; other tokens have no strength. -/
def strength? : Token.Kind → Option Nat
  | .plus | .minus => some 1
  | .star | .slash | .percent => some 2
  | _ => none

/-- The arithmetic operator a token spells. -/
def arithOp : Token.Kind → ArithOp
  | .plus => .add
  | .minus => .sub
  | .star => .mul
  | .slash => .div
  | .percent => .mod
  | _ => .unknown

/-- The comparison operator a token spells. -/
def cmpOp? : Token.Kind → Option CmpOp
  | .equal => some .equal
  | .notEqual => some .notEqual
  | .less => some .less
  | .lessEqual => some .lessEqual
  | .greater => some .greater
  | .greaterEqual => some .greaterEqual
  | _ => none

/-- The text of a number with the opposite sign. -/
def negateText (text : String) : String :=
  match text.toList with
  | '-' :: digits => String.ofList digits
  | _ => "-" ++ text

/-- Minus an operand: a number changes its sign, anything else is taken from zero. -/
def negate (line : Nat) (operand : Expr) : Expr :=
  match operand with
  | .literal _ (.scalar .int text) => .literal line (.scalar .int (negateText text))
  | other => .binary line .sub (.literal line (.scalar .int "0")) other

/-- Stop because the bound on nesting was reached, which the bound rules out. -/
def exhausted : Parser α :=
  fun _ => .error { code := .unknown, line := 0, message := [] }

mutual

/-- Operators of at least the given strength between operands, grouped to the left. -/
def binary : Nat → Nat → Parser Expr
  | 0, _ => exhausted
  | fuel + 1, least => do
      let left ← unary fuel
      binaryTail fuel least left

/-- Further operators behind a left operand. -/
def binaryTail : Nat → Nat → Expr → Parser Expr
  | 0, _, _ => exhausted
  | fuel + 1, least, left => do
      let token ← peek
      match strength? token.kind with
      | none => return left
      | some strength =>
          if strength < least then
            return left
          else
            let _ ← advance
            let right ← binary fuel (strength + 1)
            binaryTail fuel least (.binary left.line (arithOp token.kind) left right)

/-- An operand with any number of minus signs in front of it. -/
def unary : Nat → Parser Expr
  | 0 => exhausted
  | fuel + 1 => do
      if ← at? .minus then
        let minus ← advance
        let operand ← unary fuel
        return negate minus.line operand
      else
        primary fuel

/-- A constant, a name, an element, a call, a group or an array. -/
def primary : Nat → Parser Expr
  | 0 => exhausted
  | fuel + 1 => do
      let token ← peek
      match token.kind with
      | .integer =>
          let _ ← advance
          match Text.integer? 32 token.spelling with
          | none => fail token.line (.wideNumber token.spelling)
          | some _ => return .literal token.line (.scalar .int token.spelling)
      | .string =>
          let _ ← advance
          return .literal token.line (.string token.text)
      | .character =>
          let _ ← advance
          return .literal token.line
            (.scalar .char (toString ((token.text.head?.map UInt8.toNat).getD 0)))
      | .wordTrue =>
          let _ ← advance
          return .literal token.line (.scalar .bool "1")
      | .wordFalse =>
          let _ ← advance
          return .literal token.line (.scalar .bool "0")
      | .sigil =>
          let (name, arguments) ← builtinCall fuel
          return .call name.line name.spelling true arguments
      | .identifier =>
          let _ ← advance
          let following ← peek
          match following.kind with
          | .openParen =>
              let arguments ← callArguments fuel
              return .call token.line token.spelling false arguments
          | .openBracket =>
              let position ← index fuel
              return .element token.line token.spelling position
          | _ => return .name token.line token.spelling
      | .openParen =>
          let opened ← advance
          let inner ← binary fuel 1
          close .closeParen opened.line .group
          return inner
      | .openBracket =>
          let opened ← advance
          let elements ← items fuel .closeBracket .elementComma []
          close .closeBracket opened.line .bracket
          return .array opened.line elements
      | _ => failHere (.expression token)

/-- An index in brackets. -/
def index : Nat → Parser Expr
  | 0 => exhausted
  | fuel + 1 => do
      let opened ← advance
      let position ← binary fuel 1
      close .closeBracket opened.line .bracket
      return position

/-- A builtin call: the sigil, its name and its arguments. -/
def builtinCall : Nat → Parser (Token × List Expr)
  | 0 => exhausted
  | fuel + 1 => do
      let _ ← advance
      let name ← expect .builtinName
      if ← at? .openParen then
        let arguments ← callArguments fuel
        return (name, arguments)
      else
        failHere .builtinParen

/-- The arguments of a call in parentheses. -/
def callArguments : Nat → Parser (List Expr)
  | 0 => exhausted
  | fuel + 1 => do
      let opened ← advance
      let arguments ← items fuel .closeParen .argumentComma []
      close .closeParen opened.line .call
      return arguments

/-- Expressions with commas between them, up to a closing bracket. -/
def items : Nat → Token.Kind → Expected → List Expr → Parser (List Expr)
  | 0, _, _, _ => exhausted
  | fuel + 1, closing, comma, done => do
      let token ← peek
      if token.kind = closing ∨ token.kind = .endOfInput then
        return done
      else
        if !done.isEmpty then
          let _ ← expect comma
        let item ← binary fuel 1
        items fuel closing comma (done ++ [item])

end

/-- An expression. -/
def expression (fuel : Nat) : Parser Expr :=
  binary fuel 1

/-- A type word, with a length in brackets for an array. -/
def type : Parser Ty := do
  let word ← expect .type
  match Ty.ofWord? word.spelling with
  | none => fail word.line (.unknownType word.spelling)
  | some element =>
      if ← at? .openBracket then
        let opened ← advance
        let number ← expect .arrayLength
        match Text.integer? 64 number.spelling with
        | none => fail number.line .arrayLength
        | some length =>
            if length ≤ 0 then
              fail number.line .arrayLength
            else if element = .void ∨ element = .str then
              fail word.line (.arrayOf element)
            else
              close .closeBracket opened.line .bracket
              return .array element length
      else
        return element

mutual

/-- The first constant in an initializer that does not have the declared type. -/
def literalFault? (expected : Ty) : Expr → Option (Nat × GrammarFault)
  | .literal line value =>
      if expected = value.type then
        none
      else
        some (line, .literal expected value.type)
  | .array line elements =>
      if expected.isArray then
        literalFaultIn? expected.element elements
      else
        some (line, .arrayLiteral expected)
  | _ => none

/-- The first such constant in a list of elements. -/
def literalFaultIn? (expected : Ty) : List Expr → Option (Nat × GrammarFault)
  | [] => none
  | element :: rest =>
      match literalFault? expected element with
      | some found => some found
      | none => literalFaultIn? expected rest

end

/-- A declaration behind its name. -/
def declaration (fuel : Nat) (name : Token) : Parser Stmt := do
  let _ ← advance
  let declared ← type
  let value ←
    if ← at? .assign then do
      let _ ← advance
      let value ← expression fuel
      match literalFault? declared value with
      | some (line, fault) => fail line fault
      | none => pure (some value)
    else
      pure none
  semicolon
  return .declare name.line name.spelling declared value

/-- A statement that starts with a name. -/
def nameStatement (fuel : Nat) : Parser Stmt := do
  let name ← advance
  let following ← peek
  match following.kind with
  | .colon => declaration fuel name
  | .openParen =>
      let arguments ← callArguments fuel
      semicolon
      return .call name.line name.line name.spelling false arguments
  | .assign =>
      let _ ← expect .assignSign
      let value ← expression fuel
      semicolon
      return .assign name.line name.spelling none value
  | .openBracket =>
      let position ← index fuel
      let _ ← expect .assignSign
      let value ← expression fuel
      semicolon
      return .assign name.line name.spelling (some position) value
  | _ => failHere (.afterName name.spelling)

/-- A return with or without a value. -/
def leave (fuel : Nat) : Parser Stmt := do
  let word ← advance
  let value ←
    if ← at? .semicolon then
      pure none
    else do
      let value ← expression fuel
      pure (some value)
  semicolon
  return .leave word.line value

/-- One term of a condition. -/
def comparison (fuel : Nat) : Parser Comparison := do
  let left ← expression fuel
  match cmpOp? (← peek).kind with
  | none => return { line := left.line, left := left, op := none, right := none }
  | some op =>
      let _ ← advance
      let right ← expression fuel
      return { line := left.line, left := left, op := some op, right := some right }

/-- The terms and joins of a condition, behind those already read. -/
def conditionTail :
    Nat → List Comparison → List Logic → Parser (List Comparison × List Logic)
  | 0, _, _ => exhausted
  | fuel + 1, terms, joins => do
      let term ← comparison fuel
      match (← peek).kind with
      | .both =>
          let _ ← advance
          conditionTail fuel (terms ++ [term]) (joins ++ [.both])
      | .either =>
          let _ ← advance
          conditionTail fuel (terms ++ [term]) (joins ++ [.either])
      | _ => return (terms ++ [term], joins)

/-- Terms joined from left to right. -/
def condition (fuel : Nat) : Parser Condition := do
  let line := (← peek).line
  let (terms, joins) ← conditionTail fuel [] []
  return { line := line, terms := terms, joins := joins }

/-- A condition in parentheses. -/
def guard (fuel : Nat) : Parser Condition := do
  let opened ← expect .conditionParen
  let inner ← condition fuel
  close .closeParen opened.line .condition
  return inner

/-- The parameters of a function, behind those already read. -/
def parameters : Nat → List Param → Parser (List Param)
  | 0, _ => exhausted
  | fuel + 1, done => do
      let token ← peek
      if token.kind = .closeParen ∨ token.kind = .endOfInput then
        return done
      else
        if !done.isEmpty then
          let _ ← expect .parameterComma
        let name ← expect .parameterName
        let _ ← expect .parameterColon
        let declared ← type
        parameters fuel (done ++ [{ line := name.line, name := name.spelling, type := declared }])

/-- The name, parameters and result type of a function. -/
def signature (fuel : Nat) : Parser (Token × List Param × Ty) := do
  let name ← expect .functionName
  let opened ← expect .parameterParen
  let params ← parameters fuel []
  close .closeParen opened.line .parameters
  if ← at? .arrow then
    let _ ← advance
    let result ← type
    return (name, params, result)
  else
    return (name, params, .void)

mutual

/-- Statements in braces, with the line of the opening brace. -/
def block : Nat → Parser (Nat × List Stmt)
  | 0 => exhausted
  | fuel + 1 => do
      let opened ← expect .blockBrace
      let body ← statements fuel []
      close .closeBrace opened.line .block
      return (opened.line, body)

/-- Statements up to a closing brace, behind those already read. -/
def statements : Nat → List Stmt → Parser (List Stmt)
  | 0, _ => exhausted
  | fuel + 1, done => do
      let token ← peek
      if token.kind = .closeBrace ∨ token.kind = .endOfInput then
        return done
      else
        let next ← statement fuel
        statements fuel (done ++ [next])

/-- A statement, chosen by its first token. -/
def statement : Nat → Parser Stmt
  | 0 => exhausted
  | fuel + 1 => do
      let token ← peek
      match token.kind with
      | .wordFn =>
          let _ ← advance
          let (name, params, result) ← signature fuel
          let (bodyLine, body) ← block fuel
          return .function token.line name.spelling params result bodyLine body
      | .wordReturn => leave fuel
      | .wordIf =>
          let _ ← advance
          let test ← guard fuel
          let (bodyLine, body) ← block fuel
          let next ← branch fuel
          return .choose token.line (some test) bodyLine body next
      | .wordWhile =>
          let _ ← advance
          let test ← guard fuel
          let (bodyLine, body) ← block fuel
          return .loop token.line (some test) bodyLine body
      | .wordBreak =>
          let _ ← advance
          semicolon
          return .exit token.line
      | .openBrace =>
          let (line, body) ← block fuel
          return .block line body
      | .sigil =>
          let (name, arguments) ← builtinCall fuel
          semicolon
          return .call token.line name.line name.spelling true arguments
      | .identifier => nameStatement fuel
      | _ => failHere (.statementStart token)

/-- What follows an arm of a choice. -/
def branch : Nat → Parser Branch
  | 0 => exhausted
  | fuel + 1 => do
      let token ← peek
      match token.kind with
      | .wordElif =>
          let _ ← advance
          let test ← guard fuel
          let (bodyLine, body) ← block fuel
          let next ← branch fuel
          return .elif token.line (some test) bodyLine body next
      | .wordElse =>
          let _ ← advance
          let (bodyLine, body) ← block fuel
          return .otherwise token.line bodyLine body
      | _ => return .none

end

/-- Statements up to the end of the input, and the report that stopped them early. -/
def program : Nat → List Lexeme → List Stmt × Option Report
  | 0, _ => ([], none)
  | fuel + 1, lexemes =>
      match lexemes with
      | [] => ([], none)
      | lexeme :: _ =>
          if lexeme.token.kind = .endOfInput then
            ([], none)
          else
            match statement fuel lexemes with
            | .error report => ([], some report)
            | .ok (next, rest) =>
                let (following, problem) := program fuel rest
                (next :: following, problem)

/-- A bound on nested rules: between two tokens fewer than sixteen rules begin. -/
def bound (lexemes : List Lexeme) : Nat :=
  16 * (lexemes.length + 1)

/--
Give the end token the line of the token before it, so that a problem at the end
of the input is reported where the text ends.
-/
def placeEnd : List Lexeme → List Lexeme
  | [] => []
  | [lexeme] => [lexeme]
  | before :: lexeme :: rest =>
      if lexeme.token.kind = .endOfInput then
        [before, { lexeme with token := { lexeme.token with line := before.token.line } }]
      else
        before :: placeEnd (lexeme :: rest)

end Parser

/-- The outcome of reading a file: the statements before the first problem, and that problem. -/
structure Reading where
  program : Program
  problem : Option Report

namespace Reading

/-- Read a source file. -/
def ofSource (file : String) (source : Bytes) : Reading :=
  let lexemes := Parser.placeEnd (Lexeme.ofSource source)
  let (statements, problem) := Parser.program (Parser.bound lexemes) lexemes
  { program := { file := file, statements := statements }, problem := problem }

/-- The diagnostics of a reading. -/
def diagnostics (reading : Reading) : List Diagnostic :=
  reading.problem.toList.map fun report => report.diagnostic reading.program.file

/-- The whole program, or the diagnostic of the first problem. -/
def result (reading : Reading) : Except Diagnostic Program :=
  match reading.problem with
  | some report => .error (report.diagnostic reading.program.file)
  | none => .ok reading.program

end Reading

end IlsCompiler
