import IlsCompiler.Text.Bytes

namespace IlsCompiler

/-!
# Tokens

A token is a word of the source language with the line it starts on. The text of
a string or character literal is its contents with the escapes undone; every
other token carries its spelling.
-/

namespace Token

/-- The categories of tokens. -/
inductive Kind where
  | invalid
  | endOfInput
  | identifier
  | integer
  | string
  | character
  | wordFn
  | wordIf
  | wordElif
  | wordElse
  | wordWhile
  | wordBreak
  | wordReturn
  | wordTrue
  | wordFalse
  | plus
  | minus
  | star
  | slash
  | percent
  | assign
  | equal
  | notEqual
  | less
  | lessEqual
  | greater
  | greaterEqual
  | both
  | either
  | colon
  | semicolon
  | comma
  | arrow
  | openParen
  | closeParen
  | openBrace
  | closeBrace
  | openBracket
  | closeBracket
  | sigil
deriving DecidableEq, Repr, Inhabited

namespace Kind

/-- The categories in the order of their numbers. -/
def all : List Kind := [
  .invalid, .endOfInput, .identifier, .integer, .string, .character,
  .wordFn, .wordIf, .wordElif, .wordElse, .wordWhile, .wordBreak, .wordReturn,
  .wordTrue, .wordFalse,
  .plus, .minus, .star, .slash, .percent, .assign, .equal, .notEqual, .less,
  .lessEqual, .greater, .greaterEqual, .both, .either, .colon, .semicolon, .comma,
  .arrow, .openParen, .closeParen, .openBrace, .closeBrace, .openBracket,
  .closeBracket, .sigil]

/-- The category with a number, if there is one. -/
def ofNumber? (number : Nat) : Option Kind :=
  all[number]?

/-- The name of a category; words, operators and punctuation are named by their spelling. -/
def name : Kind → String
  | .invalid => "Invalid"
  | .endOfInput => "EOF"
  | .identifier => "Ident"
  | .integer => "IntLit"
  | .string => "StringLit"
  | .character => "CharLit"
  | .wordFn => "fn"
  | .wordIf => "if"
  | .wordElif => "elif"
  | .wordElse => "else"
  | .wordWhile => "while"
  | .wordBreak => "break"
  | .wordReturn => "return"
  | .wordTrue => "true"
  | .wordFalse => "false"
  | .plus => "+"
  | .minus => "-"
  | .star => "*"
  | .slash => "/"
  | .percent => "%"
  | .assign => "="
  | .equal => "=="
  | .notEqual => "!="
  | .less => "<"
  | .lessEqual => "<="
  | .greater => ">"
  | .greaterEqual => ">="
  | .both => "&&"
  | .either => "||"
  | .colon => ":"
  | .semicolon => ";"
  | .comma => ","
  | .arrow => "->"
  | .openParen => "("
  | .closeParen => ")"
  | .openBrace => "\x7b"
  | .closeBrace => "\x7d"
  | .openBracket => "["
  | .closeBracket => "]"
  | .sigil => "@"

/-- The name of a category number, also where no category has it. -/
def nameOfNumber (number : Nat) : String :=
  match ofNumber? number with
  | some kind => kind.name
  | none => "Kind(?)"

/-- Whether a token of this category is a constant, the truth values included. -/
def isLiteral : Kind → Bool
  | .integer | .string | .character | .wordTrue | .wordFalse => true
  | _ => false

/-- Whether a token of this category is a reserved word. -/
def isKeyword : Kind → Bool
  | .wordFn | .wordIf | .wordElif | .wordElse | .wordWhile | .wordBreak | .wordReturn
  | .wordTrue | .wordFalse => true
  | _ => false

/-- The category of a reserved word; case matters. -/
def ofWord? (word : String) : Option Kind :=
  all.find? fun kind => kind.isKeyword && kind.name == word

end Kind

end Token

/-- A word of the source language. -/
structure Token where
  kind : Token.Kind
  line : Nat
  text : Bytes
deriving DecidableEq, Repr, Inhabited

namespace Token

/-- The spelling of a name or number, whose bytes are all ASCII. -/
def spelling (token : Token) : String :=
  Bytes.ascii token.text

/-- How a message names a token it did not expect. -/
def describe (token : Token) : String :=
  match token.kind with
  | .endOfInput => "end of file"
  | .identifier | .integer => "\"" ++ token.spelling ++ "\""
  | .string => "string literal"
  | .character => "char literal"
  | kind => "'" ++ kind.name ++ "'"

end Token

end IlsCompiler
