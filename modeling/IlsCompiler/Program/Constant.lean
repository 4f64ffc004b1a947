import IlsCompiler.Program.Basic
import IlsCompiler.Diagnostic.Failure
import IlsCompiler.Text.Quoted
import IlsCompiler.Text.Decimal

namespace IlsCompiler

/-!
# Constant arithmetic

An expression made of integer constants and arithmetic operators has a value
before the program runs. Division truncates toward zero, and the result of every
operator has to fit in 32 bits, the bound that also holds for written constants.
-/

/-- Why an expression has no constant value. -/
inductive ConstantFault where
  | literalType (type : Ty)
  | badInteger (text : String)
  | missingOperand
  | notConstant
  | divisionByZero
  | unknownOperator (op : ArithOp)
  | overflow (value : Int)
deriving DecidableEq, Repr

namespace ConstantFault

/-- The code of a constant fault. -/
def code : ConstantFault → Code
  | .divisionByZero => .divisionByZero
  | .overflow _ => .constantOverflow
  | _ => .invalidOperandType

/-- The message of a constant fault. -/
def message : ConstantFault → String
  | .literalType type => type.name ++ " literal in constant arithmetic"
  | .badInteger text => "bad integer literal " ++ Text.quote text
  | .missingOperand => "missing operand"
  | .notConstant => "expression is not constant"
  | .divisionByZero => "division by zero"
  | .unknownOperator op => "unknown operator " ++ op.symbol
  | .overflow value => "constant " ++ toString value ++ " does not fit in 32 bits"

/-- A constant fault on a line. -/
def failure (fault : ConstantFault) (line : Nat) : Failure :=
  .report fault.code line fault.message

end ConstantFault

namespace Expr

/-- Whether an expression is built only from integer constants and arithmetic operators. -/
def isConstant : Expr → Bool
  | .literal _ value => value.type = .int
  | .binary _ _ left right => left.isConstant && right.isConstant
  | _ => false

/-- The result of an operator on 64-bit words. -/
def applyOp (op : ArithOp) (left right : Int) : Except ConstantFault Int :=
  match op with
  | .add => .ok (Text.wrap64 (left + right))
  | .sub => .ok (Text.wrap64 (left - right))
  | .mul => .ok (Text.wrap64 (left * right))
  | .div =>
      if right = 0 then
        .error .divisionByZero
      else
        .ok (Text.wrap64 (left.tdiv right))
  | .mod =>
      if right = 0 then
        .error .divisionByZero
      else
        .ok (Text.wrap64 (left.tmod right))
  | .unknown => .error (.unknownOperator op)

/-- The value of a written constant. -/
def literalValue (value : Literal) : Except ConstantFault Int :=
  match value with
  | .scalar .int text =>
      match Text.integer? 64 text with
      | some number => .ok number
      | none => .error (.badInteger text)
  | other => .error (.literalType other.type)

/-- The result of an operator, which has to fit in 32 bits. -/
def checkedOp (op : ArithOp) (left right : Int) : Except ConstantFault Int :=
  match applyOp op left right with
  | .error fault => .error fault
  | .ok value =>
      if Text.fits 32 value then
        .ok value
      else
        .error (.overflow value)

/-- The value of a constant expression, or the first fault from left to right with its line. -/
def constantValue : Expr → Except (ConstantFault × Nat) Int
  | .missing => .error (.missingOperand, 0)
  | .literal line value =>
      match literalValue value with
      | .ok number => .ok number
      | .error fault => .error (fault, line)
  | .binary line op left right =>
      match left.constantValue with
      | .error fault => .error fault
      | .ok leftValue =>
          match right.constantValue with
          | .error fault => .error fault
          | .ok rightValue =>
              match checkedOp op leftValue rightValue with
              | .ok value => .ok value
              | .error fault => .error (fault, line)
  | other => .error (.notConstant, other.line)

/-- The value of a constant expression as a step that can fail. -/
def evaluate (expr : Expr) : Except Failure Int :=
  match expr.constantValue with
  | .ok value => .ok value
  | .error (fault, line) => .error (fault.failure line)

end Expr

end IlsCompiler
