namespace IlsCompiler

/-!
# Operators

Arithmetic, comparison and logical operators with their spellings in source text
and in listings.
-/

/-- An arithmetic operator; `unknown` stands for one that was left out. -/
inductive ArithOp where
  | unknown
  | add
  | sub
  | mul
  | div
  | mod
deriving DecidableEq, Repr, Inhabited

namespace ArithOp

/-- The operators in the order of their numbers. -/
def all : List ArithOp := [.unknown, .add, .sub, .mul, .div, .mod]

/-- The operator with a number. -/
def ofNumber (number : Nat) : ArithOp :=
  (all[number]?).getD .unknown

/-- The spelling in source text. -/
def symbol : ArithOp → String
  | .unknown => "?"
  | .add => "+"
  | .sub => "-"
  | .mul => "*"
  | .div => "/"
  | .mod => "%"

/-- The mnemonic in listings. -/
def mnemonic : ArithOp → String
  | .unknown => "NONE"
  | .add => "ADD"
  | .sub => "SUB"
  | .mul => "MUL"
  | .div => "DIV"
  | .mod => "MOD"

end ArithOp

/-- A comparison operator. -/
inductive CmpOp where
  | equal
  | notEqual
  | less
  | lessEqual
  | greater
  | greaterEqual
deriving DecidableEq, Repr, Inhabited

namespace CmpOp

/-- The operators in the order of their numbers, which start at one. -/
def all : List CmpOp := [.equal, .notEqual, .less, .lessEqual, .greater, .greaterEqual]

/-- The operator with a number; zero and numbers past the last stand for none. -/
def ofNumber? (number : Nat) : Option CmpOp :=
  match number with
  | 0 => none
  | index + 1 => all[index]?

/-- The operator that holds exactly when this one fails. -/
def negate : CmpOp → CmpOp
  | .equal => .notEqual
  | .notEqual => .equal
  | .less => .greaterEqual
  | .greaterEqual => .less
  | .lessEqual => .greater
  | .greater => .lessEqual

/-- The mnemonic in listings. -/
def mnemonic : CmpOp → String
  | .equal => "EQUAL"
  | .notEqual => "NOT_EQUAL"
  | .less => "LESS"
  | .lessEqual => "LESS_EQUAL"
  | .greater => "GREATER"
  | .greaterEqual => "GREATER_EQUAL"

/-- The spelling in source text. -/
def symbol : CmpOp → String
  | .equal => "=="
  | .notEqual => "!="
  | .less => "<"
  | .lessEqual => "<="
  | .greater => ">"
  | .greaterEqual => ">="

/-- The mnemonic of a condition; no condition is called `NONE`. -/
def conditionName (condition : Option CmpOp) : String :=
  match condition with
  | some op => op.mnemonic
  | none => "NONE"

end CmpOp

/-- A logical operator between two terms of a condition. -/
inductive Logic where
  | both
  | either
deriving DecidableEq, Repr, Inhabited

namespace Logic

/-- The operator with a number; only the second number means `||`. -/
def ofNumber (number : Nat) : Logic :=
  if number = 2 then .either else .both

/-- The spelling in source text. -/
def symbol : Logic → String
  | .both => "&&"
  | .either => "||"

end Logic

end IlsCompiler
