import Mathlib.Algebra.Group.Int.Defs
import Mathlib.Algebra.Group.Nat.Defs
import IlsCompiler.Proofs.Token.Spelling
import IlsCompiler.Program.Parser

namespace IlsCompiler

/-!
# Printing programs

A program tree is printed as the words of one line. Operands stand in parentheses exactly where
they bind too loosely for their place: to the left of an operator where they bind more loosely than
it does, to the right of it where they do not bind more tightly, since operators group to the left.
-/

/-- The same tree with every node on one line. -/
def Comparison.mapLines (line : Nat) (map : Expr → Expr) (term : Comparison) : Comparison :=
  { line := line, left := map term.left, op := term.op, right := term.right.map map }

mutual

/-- The same expression with every node on one line. -/
def Expr.onLine (line : Nat) : Expr → Expr
  | .missing => .missing
  | .name _ name => .name line name
  | .literal _ value => .literal line value
  | .binary _ op left right => .binary line op (left.onLine line) (right.onLine line)
  | .element _ array index => .element line array (index.onLine line)
  | .array _ elements => .array line (exprsOnLine line elements)
  | .call _ name builtin arguments => .call line name builtin (exprsOnLine line arguments)

/-- The same expressions with every node on one line. -/
def exprsOnLine (line : Nat) : List Expr → List Expr
  | [] => []
  | first :: rest => first.onLine line :: exprsOnLine line rest

end

/-- The same condition with every node on one line. -/
def Condition.onLine (line : Nat) (test : Condition) : Condition :=
  { line := line, terms := test.terms.map (Comparison.mapLines line (Expr.onLine line)),
    joins := test.joins }

mutual

/-- The same statement with every node on one line. -/
def Stmt.onLine (line : Nat) : Stmt → Stmt
  | .block _ body => .block line (stmtsOnLine line body)
  | .declare _ name type value => .declare line name type (value.map (Expr.onLine line))
  | .function _ name params result _ body =>
      .function line name (params.map fun param => { param with line := line }) result line
        (stmtsOnLine line body)
  | .assign _ name index value =>
      .assign line name (index.map (Expr.onLine line)) (value.onLine line)
  | .call _ _ name builtin arguments => .call line line name builtin (exprsOnLine line arguments)
  | .leave _ value => .leave line (value.map (Expr.onLine line))
  | .choose _ test _ body next =>
      .choose line (test.map (Condition.onLine line)) line (stmtsOnLine line body)
        (next.onLine line)
  | .loop _ test _ body =>
      .loop line (test.map (Condition.onLine line)) line (stmtsOnLine line body)
  | .exit _ => .exit line

/-- The same arms of a choice with every node on one line. -/
def Branch.onLine (line : Nat) : Branch → Branch
  | .none => .none
  | .elif _ test _ body next =>
      .elif line (test.map (Condition.onLine line)) line (stmtsOnLine line body)
        (next.onLine line)
  | .otherwise _ _ body => .otherwise line line (stmtsOnLine line body)

/-- The same statements with every node on one line. -/
def stmtsOnLine (line : Nat) : List Stmt → List Stmt
  | [] => []
  | first :: rest => first.onLine line :: stmtsOnLine line rest

end

/-! ## Trees that can be read -/

/-- Whether a text is a name that is no reserved word. -/
def isName (name : String) : Bool :=
  match name.toList with
  | [] => false
  | first :: rest =>
      (first.isAlpha || first == '_') && rest.all (fun char => char.isAlphanum || char == '_') &&
        (Token.Kind.ofWord? name).isNone

/-- Whether digits give a number that fits in a word of 32 bits with a sign. -/
def isNatural (digits : List Char) : Bool :=
  !digits.isEmpty && digits.all Char.isDigit && decide (Nat.ofDigitChars 10 digits 0 < 2 ^ 31)

/-- Whether a text is the decimal number of a constant. -/
def isNumber (text : String) : Bool :=
  match text.toList with
  | '-' :: digits => isNatural digits
  | digits => isNatural digits

/-- The byte that a character constant stands for. -/
def charByte (text : String) : UInt8 :=
  ((Text.readNatural? text.toList).getD 0).toUInt8

/-- Whether reading a source text can give a constant. -/
def Literal.isReadable : Literal → Bool
  | .scalar .int text => isNumber text
  | .scalar .char text => text == toString (charByte text).toNat
  | .scalar .bool text => text == "1" || text == "0"
  | .scalar _ _ => false
  | .string _ => true

/-- Whether reading a source text can give a type. -/
def Ty.isReadable : Ty → Bool
  | .array element length =>
      (element == .int || element == .char || element == .bool) && decide (0 < length) &&
        decide (length < 2 ^ 63)
  | type => type == .int || type == .str || type == .char || type == .bool || type == .void

mutual

/-- Whether reading a source text can give an expression, up to line numbers. -/
def Expr.isReadable : Expr → Bool
  | .missing => false
  | .name _ name => isName name
  | .literal _ value => value.isReadable
  | .binary _ op left right => op != .unknown && left.isReadable && right.isReadable
  | .element _ array index => isName array && index.isReadable
  | .array _ elements => exprsReadable elements
  | .call _ name _ arguments => isName name && exprsReadable arguments

/-- Whether reading a source text can give all the expressions of a list. -/
def exprsReadable : List Expr → Bool
  | [] => true
  | first :: rest => first.isReadable && exprsReadable rest

end

/-- Whether reading a source text can give a term of a condition. -/
def Comparison.isReadable (term : Comparison) : Bool :=
  term.left.isReadable && term.op.isSome == term.right.isSome &&
    (term.right.map Expr.isReadable).getD true

/-- Whether reading a source text can give a condition. -/
def Condition.isReadable : Option Condition → Bool
  | none => false
  | some test =>
      test.terms.all Comparison.isReadable && test.terms.length == test.joins.length + 1

mutual

/-- Whether reading a source text can give a statement, up to line numbers. -/
def Stmt.isReadable : Stmt → Bool
  | .block _ body => stmtsReadable body
  | .declare _ name type value =>
      isName name && type.isReadable && (value.map Expr.isReadable).getD true &&
        (value.bind (Parser.literalFault? type)).isNone
  | .function _ name params result _ body =>
      isName name && params.all (fun param => isName param.name && param.type.isReadable) &&
        result.isReadable && stmtsReadable body
  | .assign _ name index value =>
      isName name && (index.map Expr.isReadable).getD true && value.isReadable
  | .call _ _ name _ arguments => isName name && exprsReadable arguments
  | .leave _ value => (value.map Expr.isReadable).getD true
  | .choose _ test _ body next =>
      Condition.isReadable test && stmtsReadable body && next.isReadable
  | .loop _ test _ body => Condition.isReadable test && stmtsReadable body
  | .exit _ => true

/-- Whether reading a source text can give the arms of a choice, up to line numbers. -/
def Branch.isReadable : Branch → Bool
  | .none => true
  | .elif _ test _ body next =>
      Condition.isReadable test && stmtsReadable body && next.isReadable
  | .otherwise _ _ body => stmtsReadable body

/-- Whether reading a source text can give all the statements of a list. -/
def stmtsReadable : List Stmt → Bool
  | [] => true
  | first :: rest => first.isReadable && stmtsReadable rest

end

/-! ## Words of trees -/

namespace Print

/-- A word that has one spelling only. -/
def fixed (kind : Token.Kind) : Token :=
  { kind := kind, line := 1, text := Bytes.ofString kind.name }

/-- A name. -/
def name (name : String) : Token :=
  { kind := .identifier, line := 1, text := Bytes.ofString name }

/-- A number without a sign. -/
def number (digits : List Char) : Token :=
  { kind := .integer, line := 1, text := Bytes.ofString (String.ofList digits) }

/-- Words in parentheses. -/
def parenthesized (tokens : List Token) : List Token :=
  fixed .openParen :: (tokens ++ [fixed .closeParen])

/-- Words in brackets. -/
def bracketed (tokens : List Token) : List Token :=
  fixed .openBracket :: (tokens ++ [fixed .closeBracket])

/-- Words in braces. -/
def braced (tokens : List Token) : List Token :=
  fixed .openBrace :: (tokens ++ [fixed .closeBrace])

/-- The words of a constant. -/
def literal : Literal → List Token
  | .scalar .int text =>
      match text.toList with
      | '-' :: digits => [fixed .minus, number digits]
      | digits => [number digits]
  | .scalar .char text => [{ kind := .character, line := 1, text := [charByte text] }]
  | .scalar _ text => [fixed (if text == "1" then .wordTrue else .wordFalse)]
  | .string contents => [{ kind := .string, line := 1, text := contents }]

/-- The word of an arithmetic operator. -/
def arith : ArithOp → Token.Kind
  | .add => .plus
  | .sub => .minus
  | .mul => .star
  | .div => .slash
  | .mod => .percent
  | .unknown => .invalid

/-- How tightly an arithmetic operator binds. -/
def strength : ArithOp → Nat
  | .mul | .div | .mod => 2
  | _ => 1

/-- The word of a comparison operator. -/
def test : CmpOp → Token.Kind
  | .equal => .equal
  | .notEqual => .notEqual
  | .less => .less
  | .lessEqual => .lessEqual
  | .greater => .greater
  | .greaterEqual => .greaterEqual

/-- The word of a logical operator. -/
def join : Logic → Token.Kind
  | .both => .both
  | .either => .either

mutual

/-- The words of an expression at a place that asks for operators of at least a strength. -/
def expr (least : Nat) : Expr → List Token
  | .missing => []
  | .name _ known => [name known]
  | .literal _ value => literal value
  | .binary _ op left right =>
      let words :=
        expr (strength op) left ++ fixed (arith op) :: expr (strength op + 1) right
      if strength op < least then parenthesized words else words
  | .element _ array index => name array :: bracketed (expr 1 index)
  | .array _ elements => bracketed (exprs elements)
  | .call _ called true arguments =>
      fixed .sigil :: name called :: parenthesized (exprs arguments)
  | .call _ called false arguments => name called :: parenthesized (exprs arguments)

/-- The words of expressions with commas between them. -/
def exprs : List Expr → List Token
  | [] => []
  | first :: rest => expr 1 first ++ moreExprs rest

/-- The words of expressions with a comma in front of each. -/
def moreExprs : List Expr → List Token
  | [] => []
  | first :: rest => fixed .comma :: (expr 1 first ++ moreExprs rest)

end

/-- The words of a type. -/
def type : Ty → List Token
  | .array element length => name element.name :: bracketed [number (toString length).toList]
  | word => [name word.name]

/-- The words of a term of a condition. -/
def term (term : Comparison) : List Token :=
  match term.op, term.right with
  | some op, some right => expr 1 term.left ++ fixed (test op) :: expr 1 right
  | _, _ => expr 1 term.left

/-- The words of terms with logical operators between them. -/
def chain : List Comparison → List Logic → List Token
  | [], _ => []
  | last :: rest, [] => term last ++ chain rest []
  | first :: rest, op :: joins => term first ++ fixed (join op) :: chain rest joins

/-- The words of a condition, if there is one. -/
def guard : Option Condition → List Token
  | none => []
  | some condition => parenthesized (chain condition.terms condition.joins)

/-- The words of a parameter. -/
def param (given : Param) : List Token :=
  name given.name :: fixed .colon :: type given.type

/-- The words of parameters with commas between them. -/
def params : List Param → List Token
  | [] => []
  | first :: rest => param first ++ rest.flatMap fun next => fixed .comma :: param next

/-- The words of a result type; a function without a result has none. -/
def result : Ty → List Token
  | .void => []
  | declared => fixed .arrow :: type declared

mutual

/-- The words of a statement. -/
def stmt : Stmt → List Token
  | .block _ body => braced (stmts body)
  | .declare _ declared type none =>
      name declared :: fixed .colon :: (Print.type type ++ [fixed .semicolon])
  | .declare _ declared type (some value) =>
      name declared :: fixed .colon ::
        (Print.type type ++ fixed .assign :: (expr 1 value ++ [fixed .semicolon]))
  | .function _ declared given declaredResult _ body =>
      fixed .wordFn :: name declared ::
        (parenthesized (params given) ++ (result declaredResult ++ braced (stmts body)))
  | .assign _ assigned none value =>
      name assigned :: fixed .assign :: (expr 1 value ++ [fixed .semicolon])
  | .assign _ assigned (some index) value =>
      name assigned ::
        (bracketed (expr 1 index) ++ fixed .assign :: (expr 1 value ++ [fixed .semicolon]))
  | .call _ _ called true arguments =>
      fixed .sigil :: name called :: (parenthesized (exprs arguments) ++ [fixed .semicolon])
  | .call _ _ called false arguments =>
      name called :: (parenthesized (exprs arguments) ++ [fixed .semicolon])
  | .leave _ none => [fixed .wordReturn, fixed .semicolon]
  | .leave _ (some value) => fixed .wordReturn :: (expr 1 value ++ [fixed .semicolon])
  | .choose _ test _ body next =>
      fixed .wordIf :: (guard test ++ (braced (stmts body) ++ branch next))
  | .loop _ test _ body => fixed .wordWhile :: (guard test ++ braced (stmts body))
  | .exit _ => [fixed .wordBreak, fixed .semicolon]

/-- The words of the arms of a choice behind the first. -/
def branch : Branch → List Token
  | .none => []
  | .elif _ test _ body next =>
      fixed .wordElif :: (guard test ++ (braced (stmts body) ++ branch next))
  | .otherwise _ _ body => fixed .wordElse :: braced (stmts body)

/-- The words of statements. -/
def stmts : List Stmt → List Token
  | [] => []
  | first :: rest => stmt first ++ stmts rest

end

/-- The source text of a program tree. -/
def text (body : List Stmt) : Bytes :=
  Token.layOut (stmts body)

end Print

end IlsCompiler
