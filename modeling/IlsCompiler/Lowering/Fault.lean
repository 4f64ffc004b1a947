import IlsCompiler.Program.Basic
import IlsCompiler.IR.Listing

namespace IlsCompiler

/-!
# Faults of lowering

Everything that can be wrong with a well-formed tree: how names, types, calls and
statements are used.
-/

/-- What is wrong with a program tree. -/
inductive LoweringFault where
  | duplicateFunction (name : String)
  | duplicateLabel (name : String)
  | missingEntry
  | moduleStatement
  | parameterType (name : String) (type : Ty)
  | entryParameters
  | nestedFunction (name : String)
  | unusableType (name : String)
  | localArray (name : String)
  | arrayInitializer (name : String)
  | arrayCount (name : String) (length : Int) (given : Nat)
  | initializer
  | wholeArray (name : String)
  | voidValue (wanted : Ty)
  | wrongType (given wanted : Ty)
  | strayReturn
  | missingReturnValue (function : String) (type : Ty)
  | extraReturnValue (function : String)
  | emptyCondition
  | missingComparison
  | incomparable (type : Ty)
  | noValue
  | arrayLiteral
  | missingExpression
  | notVariable (name : String)
  | notArray (name : String)
  | indexType (type : Ty)
  | indexRange (index : String) (type : Ty)
  | operandType (op : ArithOp) (type : Ty)
  | undeclaredFunction (name : String)
  | arity (name : String) (wanted given : Nat)
  | unknownBuiltin (name : String)
  | builtinArgument (name : String) (type : Ty)
  | arrayArgument (name : String)
deriving DecidableEq, Repr

namespace LoweringFault

/-- The code of a lowering fault. -/
def code : LoweringFault → Code
  | .duplicateFunction _ => .duplicateFunction
  | .duplicateLabel _ => .duplicateLabel
  | .missingEntry => .missingEntry
  | .moduleStatement => .misplacedStatement
  | .parameterType _ _ => .unsupportedFeature
  | .entryParameters => .arityMismatch
  | .nestedFunction _ => .misplacedStatement
  | .unusableType _ => .unresolvedType
  | .localArray _ => .unsupportedFeature
  | .arrayInitializer _ => .unsupportedFeature
  | .arrayCount _ _ _ => .invalidOperandType
  | .initializer => .unsupportedFeature
  | .wholeArray _ => .unsupportedFeature
  | .voidValue _ => .invalidOperandType
  | .wrongType _ _ => .invalidOperandType
  | .strayReturn => .misplacedStatement
  | .missingReturnValue _ _ => .returnTypeMismatch
  | .extraReturnValue _ => .returnTypeMismatch
  | .emptyCondition => .expectExpression
  | .missingComparison => .unexpectedToken
  | .incomparable _ => .invalidOperandType
  | .noValue => .invalidOperandType
  | .arrayLiteral => .unsupportedFeature
  | .missingExpression => .invalidOperandType
  | .notVariable _ => .undeclaredVariable
  | .notArray _ => .invalidOperandType
  | .indexType _ => .invalidOperandType
  | .indexRange _ _ => .invalidOperandType
  | .operandType _ _ => .invalidOperandType
  | .undeclaredFunction _ => .undeclaredFunction
  | .arity _ _ _ => .arityMismatch
  | .unknownBuiltin _ => .unknownBuiltin
  | .builtinArgument _ _ => .invalidOperandType
  | .arrayArgument _ => .invalidOperandType

/-- The message of a lowering fault. -/
def message : LoweringFault → String
  | .duplicateFunction name => "function " ++ Text.quote name ++ " is already declared"
  | .duplicateLabel name => "label " ++ Text.quote name ++ " is already defined"
  | .missingEntry => "no " ++ Text.quote entryName ++ " function declared"
  | .moduleStatement => "only declarations are allowed at module level"
  | .parameterType name type => "parameter " ++ Text.quote name ++ " of type " ++ type.name
  | .entryParameters => entryName ++ " must not take parameters"
  | .nestedFunction name =>
      "function " ++ Text.quote name ++ " must be declared at module level"
  | .unusableType name => "variable " ++ Text.quote name ++ " has no usable type"
  | .localArray name =>
      "local array " ++ Text.quote name ++ ": arrays must be declared at module level"
  | .arrayInitializer name =>
      "array " ++ Text.quote name ++ " must be initialized with an array literal"
  | .arrayCount name length given =>
      "array " ++ Text.quote name ++ " has length " ++ toString length ++ " but " ++
        toString given ++ " values were given"
  | .initializer => "module-level initializers must be constant"
  | .wholeArray name => "whole-array assignment to " ++ Text.quote name
  | .voidValue wanted => "void value used where " ++ wanted.name ++ " is expected"
  | .wrongType given wanted => "cannot use " ++ given.name ++ " value as " ++ wanted.name
  | .strayReturn => "return outside of a function"
  | .missingReturnValue function type =>
      function ++ " must return a " ++ type.name ++ " value"
  | .extraReturnValue function => function ++ " does not return a value"
  | .emptyCondition => "empty condition"
  | .missingComparison => "missing comparison operator"
  | .incomparable type => "cannot compare " ++ type.name ++ " values"
  | .noValue => "expression has no value"
  | .arrayLiteral => "array literals are only allowed in module-level declarations"
  | .missingExpression => "missing expression"
  | .notVariable name => Text.quote name ++ " does not name a variable"
  | .notArray name => Text.quote name ++ " is not an array"
  | .indexType type => "array index must be int, got " ++ type.name
  | .indexRange index type => "index " ++ index ++ " out of range for " ++ type.name
  | .operandType op type => "operator " ++ op.symbol ++ " is not defined on " ++ type.name
  | .undeclaredFunction name => "function " ++ Text.quote name ++ " is not declared"
  | .arity name wanted given =>
      name ++ " expects " ++ toString wanted ++ " arguments, got " ++ toString given
  | .unknownBuiltin name => "unknown builtin " ++ Builtin.sigil ++ name
  | .builtinArgument name type =>
      Builtin.sigil ++ name ++ " cannot take a " ++ type.name ++ " argument"
  | .arrayArgument name => "arrays cannot be passed to " ++ name

/-- A lowering fault on a line. -/
def failure (fault : LoweringFault) (line : Nat) : Failure :=
  .report fault.code line fault.message

end LoweringFault

end IlsCompiler
